import Mathlib.Data.List.Induction
import CsInternal.Network.RouteTrie

/-!
# The trie denotes the routing table

The routing table is the map from prefixes to the next hop inserted last for
them.  A trie denotes it when the nodes are exactly the prefixes of the routes
and store, under their own path, whether the path is a route and its next hop.
This determines the trie, so the order of the insertions cannot matter.
-/

namespace CsInternal.Network.RouteTrie

/-- The next hop of the last insert of a prefix. -/
def nextHop? (routes : List Route) (path : List Bool) : Option String :=
  ((routes.filter (fun route => route.path = path)).getLast?).map Route.nexthop

theorem nextHop?_append (routes : List Route) (route : Route) (path : List Bool) :
    nextHop? (routes ++ [route]) path =
      if path = route.path then some route.nexthop else nextHop? routes path := by
  unfold nextHop?
  rw [List.filter_append]
  by_cases hpath : path = route.path
  · simp [hpath]
  · simp [hpath, Ne.symm hpath]

theorem nextHop?_isSome_iff (routes : List Route) (path : List Bool) :
    (nextHop? routes path).isSome ↔ ∃ route ∈ routes, route.path = path := by
  rw [nextHop?, Option.isSome_map, List.getLast?_isSome, ne_eq, List.filter_eq_nil_iff]
  simp

/-- The next hop of a route in the table is the next hop of some insert of it. -/
theorem nextHop?_mem {routes : List Route} {path : List Bool} {hop : String}
    (hhop : nextHop? routes path = some hop) :
    ∃ route ∈ routes, route.path = path ∧ route.nexthop = hop := by
  obtain ⟨route, hlast, rfl⟩ := Option.map_eq_some_iff.mp hhop
  have hmem := List.mem_of_getLast? hlast
  rw [List.mem_filter] at hmem
  exact ⟨route, hmem.1, by simpa using hmem.2, rfl⟩

/-- The paths that have a node: the root, and everything above a route. -/
def Covered (table : List Bool → Option String) (path : List Bool) : Prop :=
  path = [] ∨ ∃ below, (table below).isSome ∧ path <+: below

/-- The trie below `node` stores exactly the table. -/
def Denotes (node : TrieNode) (table : List Bool → Option String) : Prop :=
  ∀ path,
    (Covered table path →
      node.fieldsAt path =
        some ⟨(table path).isSome, render path, (table path).getD ""⟩) ∧
    (¬ Covered table path → node.fieldsAt path = none)

theorem Denotes.unique {first second : TrieNode} {table : List Bool → Option String}
    (hfirst : Denotes first table) (hsecond : Denotes second table) : first = second := by
  refine TrieNode.ext_fieldsAt fun path => ?_
  by_cases hcovered : Covered table path
  · rw [(hfirst path).1 hcovered, (hsecond path).1 hcovered]
  · rw [(hfirst path).2 hcovered, (hsecond path).2 hcovered]

theorem denotes_new : Denotes .new (fun _ => none) := by
  intro path
  cases path with
  | nil => exact ⟨fun _ => rfl, fun h => absurd (Or.inl rfl) h⟩
  | cons b rest =>
      refine ⟨?_, fun _ => ?_⟩
      · rintro (hnil | ⟨_, hsome, _⟩)
        · cases hnil
        · cases hsome
      · cases b <;> exact TrieNode.null_fieldsAt rest

/-- Every node below carries the path that leads to it from the root. -/
def Labelled (node : TrieNode) (above : List Bool) : Prop :=
  ∀ path fields, node.fieldsAt path = some fields → fields.nodePrefix = render (above ++ path)

theorem Labelled.child {node : TrieNode} {above : List Bool} (hlabelled : Labelled node above)
    (b : Bool) : Labelled (node.child b) (above ++ [b]) := by
  intro path fields hfields
  have h := hlabelled (b :: path) fields hfields
  simpa using h

/-- The child the loop moves to: the old one, or a fresh one under its path. -/
theorem fieldsAt_orNew {node : TrieNode} {above : List Bool}
    (hlabelled : Labelled node above) (path : List Bool) :
    (node.orNew.setPrefix (render above)).fieldsAt path =
      if path = [] then some ((node.fieldsAt []).getD ⟨false, render above, ""⟩)
      else node.fieldsAt path := by
  cases node with
  | null =>
      cases path with
      | nil => rfl
      | cons b rest => cases b <;> simp [TrieNode.orNew, TrieNode.isNull, TrieNode.new,
          TrieNode.setPrefix, TrieNode.child]
  | node c0 c1 leaf text hop =>
      have htext : text = render above := by
        simpa [TrieNode.fields?] using hlabelled [] ⟨leaf, text, hop⟩ rfl
      subst htext
      cases path <;> rfl

theorem labelled_orNew {node : TrieNode} {above : List Bool}
    (hlabelled : Labelled node above) :
    Labelled (node.orNew.setPrefix (render above)) above := by
  intro path fields hfields
  rw [fieldsAt_orNew hlabelled] at hfields
  split at hfields
  · subst path
    cases hroot : node.fieldsAt [] with
    | none =>
        rw [hroot] at hfields
        cases hfields
        simp
    | some root =>
        rw [hroot] at hfields
        cases hfields
        exact hlabelled [] root hroot
  · exact hlabelled path fields hfields

theorem Labelled.root {node : TrieNode} {above : List Bool} (hlabelled : Labelled node above)
    (fields : Fields) (hfields : node.fieldsAt [] = some fields) :
    fields.nodePrefix = render above := by
  simpa using hlabelled [] fields hfields

/-- The bits of a binary string, one character further. -/
theorem bits_take_succ {ip : List Char} {i : Nat} (hlt : i < ip.length) :
    bits (ip.take (i + 1)) = bits (ip.take i) ++ [ip[i] == '1'] := by
  rw [List.take_succ_eq_append_getElem hlt, bits, List.map_append]
  rfl

theorem bits_drop_take_succ {ip : List Char} {i remaining : Nat} (hlt : i < ip.length) :
    bits ((ip.drop i).take (remaining + 1)) =
      (ip[i] == '1') :: bits ((ip.drop (i + 1)).take remaining) := by
  rw [List.drop_eq_getElem_cons hlt]
  rfl

/-- What one insertion leaves at a path: the new route at `target`, nodes on the
way to it, and everything else as it was. -/
def inserted (old : List Bool → Option Fields) (above target : List Bool) (nexthop : String)
    (path : List Bool) : Option Fields :=
  if path = target then some ⟨true, render (above ++ path), nexthop⟩
  else if path <+: target then some ((old path).getD ⟨false, render (above ++ path), ""⟩)
  else old path

/-- The loop of `insert` below a node: it never faults, marks the node at the
end of the path, creates the missing nodes on the way, and changes no other. -/
theorem insertLoop_spec {ip : List Char} (hbinary : Binary ip) (nexthop : String)
    (remaining i : Nat) (hle : i + remaining ≤ ip.length) {node : TrieNode}
    (hnode : node ≠ .null) (hlabelled : Labelled node (bits (ip.take i))) :
    ∃ node', insertLoop ip nexthop remaining i node = .ok node' ∧
      ∀ path, node'.fieldsAt path =
        inserted node.fieldsAt (bits (ip.take i)) (bits ((ip.drop i).take remaining))
          nexthop path := by
  induction remaining generalizing i node with
  | zero =>
      cases node with
      | null => exact absurd rfl hnode
      | node c0 c1 leaf text hop =>
          have htext : text = render (bits (ip.take i)) :=
            hlabelled.root ⟨leaf, text, hop⟩ rfl
          refine ⟨_, rfl, fun path => ?_⟩
          cases path with
          | nil => simp [inserted, bits, TrieNode.fields?, htext]
          | cons b rest => simp [inserted, bits, TrieNode.child]
  | succ remaining ih =>
      have hlt : i < ip.length := by omega
      have hchar : ip[i] = '0' ∨ ip[i] = '1' := hbinary _ (List.getElem_mem hlt)
      have hrender : render (bits (ip.take (i + 1))) = ip.take (i + 1) :=
        render_bits fun c hc => hbinary c (List.mem_of_mem_take hc)
      have hchild : Labelled (node.child (ip[i] == '1')) (bits (ip.take (i + 1))) := by
        rw [bits_take_succ hlt]
        exact hlabelled.child _
      have hnext : (node.child (ip[i] == '1')).orNew.setPrefix (ip.take (i + 1)) ≠ .null := by
        cases node.child (ip[i] == '1') <;>
          simp [TrieNode.orNew, TrieNode.isNull, TrieNode.new, TrieNode.setPrefix]
      -- the child the loop moves to, made and labelled before the next iteration
      have hmade := fieldsAt_orNew hchild
      have hmadeLabelled := labelled_orNew hchild
      rw [hrender] at hmadeLabelled
      obtain ⟨next, hloop, hfields⟩ := ih (i + 1) (by omega) hnext hmadeLabelled
      refine ⟨node.setChild (ip[i] == '1') next, ?_, fun path => ?_⟩
      · rw [insertLoop.eq_def]
        cases node with
        | null => exact absurd rfl hnode
        | node c0 c1 leaf text hop =>
            simp only [List.getElem?_eq_getElem hlt, childIndex_of_binary hchar, hloop]
            rfl
      · rw [bits_drop_take_succ hlt]
        cases path with
        | nil =>
            cases node with
            | null => exact absurd rfl hnode
            | node c0 c1 leaf text hop =>
                rw [TrieNode.setChild_fieldsAt_nil]
                simp [inserted, TrieNode.fields?]
        | cons b rest =>
            rw [TrieNode.setChild_fieldsAt_cons hnode]
            by_cases hb : b = (ip[i] == '1')
            · subst hb
              rw [if_pos rfl, hfields]
              rw [hrender] at hmade
              have habove : bits (ip.take (i + 1)) ++ rest =
                  bits (ip.take i) ++ (ip[i] == '1') :: rest := by
                rw [bits_take_succ hlt, List.append_assoc, List.singleton_append]
              have hlabel : ip.take (i + 1) = render (bits (ip.take i) ++ [ip[i] == '1']) := by
                rw [← bits_take_succ hlt, hrender]
              simp only [inserted, hmade, habove, List.cons.injEq, true_and,
                List.cons_prefix_cons, TrieNode.fieldsAt_cons]
              by_cases hrest : rest = []
              · simp [hrest, hlabel]
              · simp [hrest]
            · rw [if_neg hb]
              simp [inserted, hb, List.cons_prefix_cons]

/-! ## All insertions -/

theorem Covered.of_isSome {table : List Bool → Option String} {path : List Bool}
    (hsome : (table path).isSome) : Covered table path :=
  Or.inr ⟨path, hsome, List.prefix_refl path⟩

theorem Denotes.ne_null {node : TrieNode} {table : List Bool → Option String}
    (hdenotes : Denotes node table) : node ≠ .null := by
  rintro rfl
  have h := (hdenotes []).1 (Or.inl rfl)
  cases h

theorem Denotes.labelled {node : TrieNode} {table : List Bool → Option String}
    (hdenotes : Denotes node table) : Labelled node [] := by
  intro path fields hfields
  by_cases hcovered : Covered table path
  · rw [(hdenotes path).1 hcovered] at hfields
    cases hfields
    rfl
  · rw [(hdenotes path).2 hcovered] at hfields
    cases hfields

/-- The paths covered after adding a route. -/
theorem covered_insert_iff (table : List Bool → Option String) (target path : List Bool)
    (hop : String) :
    Covered (fun p => if p = target then some hop else table p) path ↔
      path <+: target ∨ Covered table path := by
  constructor
  · rintro (rfl | ⟨below, hsome, hbegins⟩)
    · exact Or.inl List.nil_prefix
    · by_cases hbelow : below = target
      · exact Or.inl (hbelow ▸ hbegins)
      · simp only [hbelow, if_false] at hsome
        exact Or.inr (Or.inr ⟨below, hsome, hbegins⟩)
  · rintro (hbegins | rfl | ⟨below, hsome, hbegins⟩)
    · exact Or.inr ⟨target, by simp, hbegins⟩
    · exact Or.inl rfl
    · refine Or.inr ⟨below, ?_, hbegins⟩
      by_cases hbelow : below = target <;> simp [hbelow, hsome]

theorem Trie.insert_denotes {trie : Trie} {table : List Bool → Option String}
    (hdenotes : Denotes trie.root table) {route : Route} (hvalid : route.Valid) :
    ∃ trie', trie.insert route.ip route.prefixLen route.nexthop = .ok trie' ∧
      Denotes trie'.root
        (fun path => if path = route.path then some route.nexthop else table path) := by
  have hle : 0 + route.prefixLen.toNat ≤ route.ip.length := by
    have := hvalid.le_length
    have := hvalid.nonneg
    omega
  obtain ⟨root, hloop, hfields⟩ := insertLoop_spec hvalid.binary route.nexthop
    route.prefixLen.toNat 0 hle hdenotes.ne_null hdenotes.labelled
  refine ⟨⟨root⟩, by simp [Trie.insert, hloop, Except.map], fun path => ?_⟩
  have hroot : root.fieldsAt path =
      inserted trie.root.fieldsAt [] route.path route.nexthop path := hfields path
  rw [hroot, covered_insert_iff]
  by_cases htarget : path = route.path
  · exact ⟨fun _ => by simp [inserted, htarget],
      fun h => absurd (Or.inl (htarget ▸ List.prefix_refl _)) h⟩
  · by_cases hbegins : path <+: route.path
    · refine ⟨fun _ => ?_, fun h => absurd (Or.inl hbegins) h⟩
      by_cases hcovered : Covered table path
      · simp [inserted, htarget, hbegins, (hdenotes path).1 hcovered]
      · have hnone : table path = none := by
          by_contra hsome
          exact hcovered (Covered.of_isSome (Option.isSome_iff_ne_none.mpr hsome))
        simp [inserted, htarget, hbegins, (hdenotes path).2 hcovered, hnone]
    · simp only [inserted, htarget, hbegins, if_false, false_or]
      exact hdenotes path

/-- Building a table never faults and denotes it. -/
theorem insertAll_denotes {routes : List Route} (hvalid : ∀ route ∈ routes, route.Valid) :
    ∃ trie, insertAll routes = .ok trie ∧ Denotes trie.root (nextHop? routes) := by
  induction routes using List.reverseRecOn with
  | nil => exact ⟨Trie.new, rfl, denotes_new⟩
  | append_singleton routes route ih =>
      obtain ⟨trie, hbuilt, hdenotes⟩ :=
        ih (fun r hr => hvalid r (List.mem_append_left _ hr))
      obtain ⟨trie', hinsert, hdenotes'⟩ :=
        trie.insert_denotes hdenotes (hvalid route (by simp))
      refine ⟨trie', ?_, ?_⟩
      · rw [insertAll, List.foldlM_append, ← insertAll, hbuilt]
        change (trie.insert route.ip route.prefixLen route.nexthop >>= pure) = _
        rw [hinsert]
        rfl
      · have htable : nextHop? (routes ++ [route]) = fun path =>
            if path = route.path then some route.nexthop else nextHop? routes path :=
          funext (nextHop?_append routes route)
        rwa [htable]

theorem covered_nextHop?_iff (routes : List Route) (path : List Bool) :
    Covered (nextHop? routes) path ↔ path = [] ∨ ∃ route ∈ routes, path <+: route.path := by
  refine or_congr_right ?_
  constructor
  · rintro ⟨below, hsome, hbegins⟩
    obtain ⟨route, hroute, rfl⟩ := (nextHop?_isSome_iff routes below).mp hsome
    exact ⟨route, hroute, hbegins⟩
  · rintro ⟨route, hroute, hbegins⟩
    exact ⟨route.path, (nextHop?_isSome_iff routes _).mpr ⟨route, hroute, rfl⟩, hbegins⟩

/-- What a node of the table stores. -/
def StoresRoute (routes : List Route) (path : List Bool) (fields : Fields) : Prop :=
  (fields.isLeaf = true ↔ ∃ route ∈ routes, route.path = path) ∧
  (∀ hop, nextHop? routes path = some hop → fields.nexthop = hop) ∧
  (path ≠ [] → fields.nodePrefix = render path)

/--
The trie denotes the routing table: a node exists exactly at the prefixes of
the inserted routes, is marked exactly where a route was inserted, stores the
next hop of the last insert and, off the root, its own path.  Two sequences of
insertions with the same final table therefore build the same trie and answer
every search alike.
-/
theorem trie_denotes_table {routes : List Route} (hvalid : ∀ route ∈ routes, route.Valid) :
    ∃ trie, insertAll routes = .ok trie ∧
      (∀ path,
        ((trie.root.fieldsAt path).isSome ↔
          path = [] ∨ ∃ route ∈ routes, path <+: route.path) ∧
        ∀ fields, trie.root.fieldsAt path = some fields → StoresRoute routes path fields) ∧
      ∀ routes' : List Route, (∀ route ∈ routes', route.Valid) →
        (∀ path, nextHop? routes' path = nextHop? routes path) →
        insertAll routes' = insertAll routes ∧ ∀ ip, lookup routes' ip = lookup routes ip := by
  obtain ⟨trie, hbuilt, hdenotes⟩ := insertAll_denotes hvalid
  refine ⟨trie, hbuilt, fun path => ⟨?_, fun fields hfields => ?_⟩, ?_⟩
  · rw [← covered_nextHop?_iff]
    by_cases hcovered : Covered (nextHop? routes) path
    · simp [(hdenotes path).1 hcovered, hcovered]
    · simp [(hdenotes path).2 hcovered, hcovered]
  · have hcovered : Covered (nextHop? routes) path := by
      by_contra hnot
      rw [(hdenotes path).2 hnot] at hfields
      cases hfields
    rw [(hdenotes path).1 hcovered] at hfields
    cases hfields
    refine ⟨nextHop?_isSome_iff routes path, ?_, fun _ => rfl⟩
    intro hop hhop
    simp [hhop]
  · intro routes' hvalid' hsame
    obtain ⟨trie', hbuilt', hdenotes'⟩ := insertAll_denotes hvalid'
    rw [funext hsame] at hdenotes'
    have hroot : trie' = trie := by
      cases trie'
      cases trie
      exact congrArg Trie.mk (hdenotes'.unique hdenotes)
    have hall : insertAll routes' = insertAll routes := by rw [hbuilt', hbuilt, hroot]
    exact ⟨hall, fun ip => by simp only [lookup, hall]⟩

/-- The table built by `main`. -/
def sampleRoutes : List Route :=
  [⟨"10000000".toList, 1, "192.168.1.1"⟩, ⟨"11000000".toList, 2, "192.168.2.1"⟩,
    ⟨"11000000".toList, 3, "192.168.3.1"⟩, ⟨"11100000".toList, 3, "192.168.4.1"⟩]

theorem sampleRoutes_valid : ∀ route ∈ sampleRoutes, route.Valid := by decide

theorem trie_denotes_table_sample :
    ∃ trie, insertAll sampleRoutes = .ok trie ∧
      ∀ path, (trie.root.fieldsAt path).isSome ↔
        path = [] ∨ ∃ route ∈ sampleRoutes, path <+: route.path := by
  obtain ⟨trie, hbuilt, hnodes, _⟩ := trie_denotes_table sampleRoutes_valid
  exact ⟨trie, hbuilt, fun path => (hnodes path).1⟩

end CsInternal.Network.RouteTrie
