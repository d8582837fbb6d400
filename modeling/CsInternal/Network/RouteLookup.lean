import CsInternal.Library.LongestPrefix
import CsInternal.Network.RouteTable

/-!
# What `search` finds

The descent stops at the longest prefix of the address that lies on some
route.  From there the loop that is meant to go back to the longest match goes
further down instead, to the first route below in address order.  So the
answer is the longest match exactly when the descent stops on a route, apart
from coincidences of next hops and the empty table.
-/

namespace CsInternal.Network.RouteTrie

open CsInternal.Library

def Inserted (routes : List Route) (path : List Bool) : Prop :=
  ∃ route ∈ routes, route.path = path

/-- The longest inserted prefix of an address. -/
abbrev LongestMatch (routes : List Route) : List Bool → List Bool → Prop :=
  LongestPrefix (Inserted routes)

/-- Longest-prefix match: the next hop of the longest match, and no route's next
hop when nothing matches. -/
def LookupCorrect (routes : List Route) (ip : List Char) : Prop :=
  (∀ path hop, LongestMatch routes (bits ip) path → nextHop? routes path = some hop →
    lookup routes ip = .ok hop) ∧
  ((∀ path, Inserted routes path → ¬ path <+: bits ip) →
    ∀ route ∈ routes, lookup routes ip ≠ .ok route.nexthop)

/-- The longest prefix of an address that is the root or lies on a route. -/
abbrev LongestOnRoute (routes : List Route) : List Bool → List Bool → Prop :=
  LongestPrefix (Covered (nextHop? routes))

/-- Address order: a prefix before its extensions, the `0` branch before the
`1` branch. -/
def Before : List Bool → List Bool → Prop
  | [], _ => True
  | _ :: _, [] => False
  | b :: rest, b' :: rest' => (b = false ∧ b' = true) ∨ (b = b' ∧ Before rest rest')

/-- The first route at or below a path. -/
structure FirstBelow (routes : List Route) (above path : List Bool) : Prop where
  inserted : Inserted routes path
  below : above <+: path
  first : ∀ other, Inserted routes other → above <+: other → Before path other

theorem Before.antisymm {p q : List Bool} (hpq : Before p q) (hqp : Before q p) : p = q := by
  induction p generalizing q with
  | nil =>
      cases q with
      | nil => rfl
      | cons b rest => cases hqp
  | cons a p ih =>
      cases q with
      | nil => cases hpq
      | cons b q =>
          rcases hpq with ⟨rfl, rfl⟩ | ⟨rfl, hrest⟩
          · rcases hqp with ⟨hb, _⟩ | ⟨hb, _⟩ <;> cases hb
          · rcases hqp with ⟨rfl, hb⟩ | ⟨_, hback⟩
            · cases hb
            · rw [ih hrest hback]

theorem Before.append_left (above : List Bool) {p q : List Bool} (h : Before p q) :
    Before (above ++ p) (above ++ q) := by
  induction above with
  | nil => exact h
  | cons b rest ih => exact Or.inr ⟨rfl, ih⟩

theorem before_of_isPrefix {p q : List Bool} (h : p <+: q) : Before p q := by
  obtain ⟨rest, rfl⟩ := h
  induction p with
  | nil => exact trivial
  | cons b p ih => exact Or.inr ⟨rfl, ih⟩

theorem FirstBelow.unique {routes : List Route} {above p q : List Bool}
    (hp : FirstBelow routes above p) (hq : FirstBelow routes above q) : p = q :=
  (hp.first q hq.inserted hq.below).antisymm (hq.first p hp.inserted hp.below)

theorem Inserted.covered {routes : List Route} {path : List Bool}
    (hinserted : Inserted routes path) : Covered (nextHop? routes) path :=
  .of_isSome ((nextHop?_isSome_iff routes path).mpr hinserted)

/-- The path the descent takes. -/
def reach : TrieNode → List Bool → List Bool
  | _, [] => []
  | node, b :: rest =>
      if (node.child b).isNull then [] else b :: reach (node.child b) rest

theorem reach_isPrefix (node : TrieNode) (address : List Bool) :
    reach node address <+: address := by
  induction address generalizing node with
  | nil => exact List.prefix_refl []
  | cons b rest ih =>
      unfold reach
      split
      · exact List.nil_prefix
      · exact (List.prefix_cons_inj b).mpr (ih _)

theorem follow_reach_ne_null {node : TrieNode} (hnode : node ≠ .null) (address : List Bool) :
    node.follow (reach node address) ≠ .null := by
  induction address generalizing node with
  | nil => exact hnode
  | cons b rest ih =>
      unfold reach
      split
      · exact hnode
      · rename_i hchild
        exact ih (fun h => hchild (TrieNode.isNull_iff.mpr h))

/-- No longer prefix of the address has a node. -/
theorem reach_longest (node : TrieNode) (address : List Bool) {path : List Bool}
    (hbegins : path <+: address) (hpath : node.follow path ≠ .null) :
    path.length ≤ (reach node address).length := by
  induction address generalizing node path with
  | nil => simp [List.prefix_nil.mp hbegins]
  | cons b rest ih =>
      cases path with
      | nil => exact Nat.zero_le _
      | cons b' path =>
          obtain ⟨rfl, hrest⟩ := List.cons_prefix_cons.mp hbegins
          unfold reach
          split
          · rename_i hchild
            rw [TrieNode.follow_cons, TrieNode.isNull_iff.mp hchild, TrieNode.null_follow] at hpath
            exact absurd rfl hpath
          · exact Nat.succ_le_succ (ih _ hrest hpath)

theorem descend_eq {node : TrieNode} (hnode : node ≠ .null) {ip : List Char}
    (hbinary : Binary ip) :
    descend ip node = .ok (node.follow (reach node (bits ip))) := by
  induction ip generalizing node with
  | nil =>
      cases node with
      | null => exact absurd rfl hnode
      | node c0 c1 leaf text hop => rfl
  | cons c rest ih =>
      have hrest : Binary rest := fun d hd => hbinary d (List.mem_cons_of_mem _ hd)
      have hindex := childIndex_of_binary (hbinary c List.mem_cons_self)
      rw [descend.eq_def]
      cases node with
      | null => exact absurd rfl hnode
      | node c0 c1 leaf text hop =>
          simp only [hindex]
          change _ = Except.ok (TrieNode.follow _ (reach _ ((c == '1') :: bits rest)))
          unfold reach
          split
          · rfl
          · rename_i hchild
            exact ih (fun h => hchild (TrieNode.isNull_iff.mpr h)) hrest

/-- Every node has a marked node at or below it. -/
def Live (node : TrieNode) : Prop :=
  ∀ path, (node.fieldsAt path).isSome →
    ∃ below fields, path <+: below ∧ node.fieldsAt below = some fields ∧ fields.isLeaf = true

theorem Live.child {node : TrieNode} (hlive : Live node) (b : Bool) : Live (node.child b) := by
  intro path hsome
  obtain ⟨below, fields, hbegins, hfields, hleaf⟩ := hlive (b :: path) hsome
  cases below with
  | nil => exact absurd hbegins (by simp)
  | cons b' below =>
      obtain ⟨rfl, hrest⟩ := List.cons_prefix_cons.mp hbegins
      exact ⟨below, fields, hrest, hfields, hleaf⟩

/-- The loop returns the next hop of the first marked node in address order. -/
theorem backtrack_spec {node : TrieNode} (hnode : node ≠ .null) (hlive : Live node) :
    ∃ path fields, node.fieldsAt path = some fields ∧ fields.isLeaf = true ∧
      backtrack node = .ok fields.nexthop ∧
      ∀ other fields', node.fieldsAt other = some fields' → fields'.isLeaf = true →
        Before path other := by
  induction node with
  | null => exact absurd rfl hnode
  | node c0 c1 leaf text hop ih0 ih1 =>
      cases leaf with
      | true => exact ⟨[], ⟨true, text, hop⟩, rfl, rfl, rfl, fun _ _ _ _ => trivial⟩
      | false =>
          by_cases h0 : c0 = .null
          · have h1 : c1 ≠ .null := by
              rintro rfl
              obtain ⟨below, fields, _, hfields, hleaf⟩ := hlive [] rfl
              cases below with
              | nil =>
                  cases hfields
                  cases hleaf
              | cons b below =>
                  have hnull : (TrieNode.node c0 .null false text hop).child b = .null := by
                    cases b <;> simp [TrieNode.child, h0]
                  rw [TrieNode.fieldsAt_cons, hnull, TrieNode.null_fieldsAt] at hfields
                  cases hfields
            obtain ⟨path, fields, hfields, hleaf, hback, hfirst⟩ := ih1 h1 (hlive.child true)
            refine ⟨true :: path, fields, hfields, hleaf, ?_, ?_⟩
            · simpa [backtrack, h0, TrieNode.isNull] using hback
            · intro other fields' hother hmarked
              cases other with
              | nil =>
                  cases hother
                  cases hmarked
              | cons b other =>
                  cases b with
                  | false =>
                      rw [TrieNode.fieldsAt_cons] at hother
                      simp [TrieNode.child, h0] at hother
                  | true => exact Or.inr ⟨rfl, hfirst other fields' hother hmarked⟩
          · obtain ⟨path, fields, hfields, hleaf, hback, hfirst⟩ := ih0 h0 (hlive.child false)
            have hnotNull : c0.isNull = false := by
              cases hnull : c0.isNull with
              | false => rfl
              | true => exact absurd (TrieNode.isNull_iff.mp hnull) h0
            refine ⟨false :: path, fields, hfields, hleaf, ?_, ?_⟩
            · simpa [backtrack, hnotNull] using hback
            · intro other fields' hother hmarked
              cases other with
              | nil =>
                  cases hother
                  cases hmarked
              | cons b other =>
                  cases b with
                  | false => exact Or.inr ⟨rfl, hfirst other fields' hother hmarked⟩
                  | true => exact Or.inl ⟨rfl, rfl⟩

/-! ## The whole search -/

theorem follow_ne_null_iff {node : TrieNode} {path : List Bool} :
    node.follow path ≠ .null ↔ (node.fieldsAt path).isSome := by
  unfold TrieNode.fieldsAt
  cases node.follow path <;> simp [TrieNode.fields?]

theorem Denotes.isSome_iff {node : TrieNode} {table : List Bool → Option String}
    (hdenotes : Denotes node table) (path : List Bool) :
    (node.fieldsAt path).isSome ↔ Covered table path := by
  by_cases hcovered : Covered table path
  · simp [(hdenotes path).1 hcovered, hcovered]
  · simp [(hdenotes path).2 hcovered, hcovered]

/-- A marked node is a route, and stores its next hop. -/
theorem Denotes.marked {node : TrieNode} {table : List Bool → Option String}
    (hdenotes : Denotes node table) {path : List Bool} {fields : Fields}
    (hfields : node.fieldsAt path = some fields) (hleaf : fields.isLeaf = true) :
    table path = some fields.nexthop := by
  have hcovered := (hdenotes.isSome_iff path).mp (by simp [hfields])
  rw [(hdenotes path).1 hcovered] at hfields
  cases hfields
  obtain ⟨hop, hhop⟩ := Option.isSome_iff_exists.mp hleaf
  simp [hhop]

theorem Denotes.marked_of_isSome {node : TrieNode} {table : List Bool → Option String}
    (hdenotes : Denotes node table) {path : List Bool} (hsome : (table path).isSome) :
    ∃ fields, node.fieldsAt path = some fields ∧ fields.isLeaf = true :=
  ⟨_, (hdenotes path).1 (.of_isSome hsome), hsome⟩

/-- In a table with a route, every node lies above some route. -/
theorem Denotes.live {node : TrieNode} {table : List Bool → Option String}
    (hdenotes : Denotes node table) {route : List Bool} (hroute : (table route).isSome)
    (above : List Bool) : Live (node.follow above) := by
  intro path hsome
  have hfields (p : List Bool) : (node.follow above).fieldsAt p = node.fieldsAt (above ++ p) := by
    simp [TrieNode.fieldsAt, TrieNode.follow_append]
  rw [hfields, hdenotes.isSome_iff] at hsome
  have hbelow : ∃ below, (table below).isSome ∧ above ++ path <+: below := by
    rcases hsome with hnil | hbelow
    · exact ⟨route, hroute, by rw [hnil]; exact List.nil_prefix⟩
    · exact hbelow
  obtain ⟨below, hbelowSome, rest, rfl⟩ := hbelow
  obtain ⟨fields, hat, hleaf⟩ := hdenotes.marked_of_isSome hbelowSome
  refine ⟨path ++ rest, fields, List.prefix_append path rest, ?_, hleaf⟩
  rw [hfields, ← List.append_assoc, hat]

/-- `search` answers with the first route at or below the longest prefix of the
address that lies on a route. -/
theorem lookup_spec {routes : List Route} (hvalid : ∀ route ∈ routes, route.Valid)
    (hroutes : routes ≠ []) {ip : List Char} (hbinary : Binary ip) :
    ∃ stop path hop, LongestOnRoute routes (bits ip) stop ∧ FirstBelow routes stop path ∧
      nextHop? routes path = some hop ∧ lookup routes ip = .ok hop := by
  obtain ⟨trie, hbuilt, hdenotes⟩ := insertAll_denotes hvalid
  obtain ⟨route, hroute⟩ := List.exists_mem_of_ne_nil routes hroutes
  have hsome : (nextHop? routes route.path).isSome :=
    (nextHop?_isSome_iff routes _).mpr ⟨route, hroute, rfl⟩
  let stop := reach trie.root (bits ip)
  have hstop : trie.root.follow stop ≠ .null := follow_reach_ne_null hdenotes.ne_null _
  have hlongest : LongestOnRoute routes (bits ip) stop := by
    refine ⟨?_, reach_isPrefix _ _, fun other hother hbegins => ?_⟩
    · exact (hdenotes.isSome_iff stop).mp (follow_ne_null_iff.mp hstop)
    · exact reach_longest _ _ hbegins
        (follow_ne_null_iff.mpr ((hdenotes.isSome_iff other).mpr hother))
  have hfields (p : List Bool) :
      (trie.root.follow stop).fieldsAt p = trie.root.fieldsAt (stop ++ p) := by
    simp [TrieNode.fieldsAt, TrieNode.follow_append]
  obtain ⟨path, fields, hpath, hleaf, hback, hfirst⟩ :=
    backtrack_spec hstop (hdenotes.live hsome stop)
  rw [hfields] at hpath
  have hhop := hdenotes.marked hpath hleaf
  refine ⟨stop, stop ++ path, fields.nexthop, hlongest, ?_, hhop, ?_⟩
  · refine ⟨(nextHop?_isSome_iff routes _).mp (by simp [hhop]), List.prefix_append _ _, ?_⟩
    rintro other hother ⟨rest, rfl⟩
    obtain ⟨fields', hat, hmarked⟩ :=
      hdenotes.marked_of_isSome ((nextHop?_isSome_iff routes _).mpr hother)
    exact (hfirst rest fields' (by rw [hfields]; exact hat) hmarked).append_left stop
  · rw [lookup, hbuilt]
    change (descend ip trie.root).bind backtrack = _
    rw [descend_eq hdenotes.ne_null hbinary]
    exact hback

/-- Where the code does longest-prefix match: there is no route at all, or the
descent stops on a route, or the first route below the stop happens to have the
next hop of the longest match. -/
def LookupSound (routes : List Route) (address : List Bool) : Prop :=
  routes = [] ∨
  (∃ stop, LongestOnRoute routes address stop ∧ Inserted routes stop) ∨
  ∃ stop path longest, LongestOnRoute routes address stop ∧ FirstBelow routes stop path ∧
    LongestMatch routes address longest ∧ nextHop? routes path = nextHop? routes longest

/-- `search` does longest-prefix match exactly on the inputs of `LookupSound`. -/
theorem search_longest_prefix_iff {routes : List Route}
    (hvalid : ∀ route ∈ routes, route.Valid) {ip : List Char} (hbinary : Binary ip) :
    LookupCorrect routes ip ↔ LookupSound routes (bits ip) := by
  by_cases hroutes : routes = []
  · subst hroutes
    refine ⟨fun _ => Or.inl rfl, fun _ => ⟨fun path hop hlongest => ?_, by simp⟩⟩
    obtain ⟨route, hroute, _⟩ := hlongest.holds
    cases hroute
  obtain ⟨stop, path, hop, hstop, hfirst, hhop, hlookup⟩ := lookup_spec hvalid hroutes hbinary
  constructor
  · intro hcorrect
    by_cases hmatch : ∃ p, Inserted routes p ∧ p <+: bits ip
    · obtain ⟨p, hp, hbegins⟩ := hmatch
      obtain ⟨longest, hlongest⟩ := LongestPrefix.exists_of_holds hp hbegins
      obtain ⟨best, hbest⟩ := Option.isSome_iff_exists.mp
        ((nextHop?_isSome_iff routes longest).mpr hlongest.holds)
      have hanswer := hcorrect.1 longest best hlongest hbest
      rw [hlookup, Except.ok.injEq] at hanswer
      exact Or.inr (Or.inr ⟨stop, path, longest, hstop, hfirst, hlongest,
        by rw [hhop, hbest, hanswer]⟩)
    · -- nothing matches, but the answer is some route's next hop all the same
      obtain ⟨route, hroute, _, hnext⟩ := nextHop?_mem hhop
      refine absurd ?_ (hcorrect.2 (fun p hp hbegins => hmatch ⟨p, hp, hbegins⟩) route hroute)
      rw [hlookup, hnext]
  · rintro (hnil | ⟨stop', hstop', hinserted⟩ |
      ⟨stop', path', longest, hstop', hfirst', hlongest, hsame⟩)
    · exact absurd hnil hroutes
    · obtain rfl := hstop.unique hstop'
      -- a stop on a route is itself the first route at or below the stop
      have hpath : path = stop :=
        (hfirst.first stop hinserted (List.prefix_refl stop)).antisymm
          (before_of_isPrefix hfirst.below)
      subst hpath
      have hlongest : LongestMatch routes (bits ip) path :=
        hstop.of_imp (fun _ => Inserted.covered) hinserted
      refine ⟨fun p best hp hbest => ?_, fun hnone => absurd hstop.isPrefix (hnone path hinserted)⟩
      rw [hp.unique hlongest, hhop] at hbest
      rw [hlookup, Option.some.inj hbest]
    · obtain rfl := hstop.unique hstop'
      obtain rfl := hfirst.unique hfirst'
      refine ⟨fun p best hp hbest => ?_,
        fun hnone => absurd hlongest.isPrefix (hnone longest hlongest.holds)⟩
      rw [hp.unique hlongest, ← hsame, hhop] at hbest
      rw [hlookup, Option.some.inj hbest]

theorem search_longest_prefix_iff_sample :
    LookupCorrect sampleRoutes "11000011".toList ↔
      LookupSound sampleRoutes (bits "11000011".toList) :=
  search_longest_prefix_iff sampleRoutes_valid (by decide)

/-- Routes `1/1` and `110/3`. -/
def nestedRoutes : List Route :=
  [⟨"10000000".toList, 1, "192.168.1.1"⟩, ⟨"11000000".toList, 3, "192.168.3.1"⟩]

/-- `11110000` matches only `1/1`, but the descent stops on the unmarked node
`11` and the loop goes on to `110/3`; and `00000000`, which matches nothing, is
sent to `1/1`. -/
theorem search_not_longest_prefix :
    ¬ LookupCorrect nestedRoutes "11110000".toList ∧
      ¬ LookupCorrect nestedRoutes "00000000".toList := by
  have hmatch : LongestMatch nestedRoutes (bits "11110000".toList) [true] := by
    refine ⟨⟨_, List.mem_cons_self, rfl⟩, by decide, ?_⟩
    rintro _ ⟨route, hroute, rfl⟩
    revert route
    decide
  constructor
  · intro hcorrect
    have hanswer : lookup nestedRoutes "11110000".toList = .ok "192.168.1.1" :=
      hcorrect.1 [true] "192.168.1.1" hmatch (by decide)
    revert hanswer
    decide
  · intro hcorrect
    refine hcorrect.2 ?_ ⟨"10000000".toList, 1, "192.168.1.1"⟩ List.mem_cons_self ?_
    · rintro _ ⟨route, hroute, rfl⟩
      revert route
      decide
    · decide

end CsInternal.Network.RouteTrie
