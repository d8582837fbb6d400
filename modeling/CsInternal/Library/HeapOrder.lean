import Mathlib.Data.Multiset.MapFold
import Mathlib.Order.Interval.Finset.Nat

/-!
# Binary heaps in one-based arrays

The order of a binary heap with its root at index 1 and the children of `i` at
`2 * i` and `2 * i + 1`, for any key in a linear order, and the two ways of
repairing it.  A sift moves one element step by step; it is described on the
array in which the element already stands in the hole, so that one move of the
hole is one exchange of two entries.
-/

namespace CsInternal.Library.Heap

universe u v w

variable {α : Type u} {β : Type v} [LinearOrder β]

/-- The entries `1, ..., n - 1` are in heap order. -/
def Ordered (key : α → β) (d : Nat → α) (n : Nat) : Prop :=
  ∀ i, 1 < i → i < n → key (d (i / 2)) ≤ key (d i)

/-- The root has the least key. -/
theorem Ordered.root_le {key : α → β} {d : Nat → α} {n : Nat} (hordered : Ordered key d n)
    {i : Nat} (hpos : 1 ≤ i) (hlt : i < n) : key (d 1) ≤ key (d i) := by
  induction i using Nat.strong_induction_on with
  | _ i ih =>
      by_cases hroot : i = 1
      · rw [hroot]
      · have hparent := ih (i / 2) (by omega) (by omega) (by omega)
        exact hparent.trans (hordered i (by omega) hlt)

/-- Exchange two entries. -/
def exchange (d : Nat → α) (i j : Nat) : Nat → α := d ∘ Equiv.swap i j

theorem exchange_left (d : Nat → α) (i j : Nat) : exchange d i j i = d j := by
  simp [exchange]

theorem exchange_right (d : Nat → α) (i j : Nat) : exchange d i j j = d i := by
  simp [exchange]

theorem exchange_of_ne (d : Nat → α) {i j k : Nat} (hi : k ≠ i) (hj : k ≠ j) :
    exchange d i j k = d k := by
  simp [exchange, Equiv.swap_apply_of_ne_of_ne hi hj]

/-- In order except between `hole` and its parent. -/
structure UpOrdered (key : α → β) (d : Nat → α) (n hole : Nat) : Prop where
  except : ∀ i, 1 < i → i < n → i ≠ hole → key (d (i / 2)) ≤ key (d i)
  grand : 1 < hole → ∀ c, c < n → c / 2 = hole → key (d (hole / 2)) ≤ key (d c)

namespace UpOrdered

variable {key : α → β} {d : Nat → α} {n hole : Nat}

/-- The entry in the hole exchanges places with its larger parent. -/
theorem move (h : UpOrdered key d n hole) (hroot : 1 < hole) (hlt : hole < n)
    (hless : key (d hole) < key (d (hole / 2))) :
    UpOrdered key (exchange d hole (hole / 2)) n (hole / 2) := by
  constructor
  · intro i hi hin hne
    by_cases hhole : i = hole
    · rw [hhole, exchange_left, exchange_right]
      exact hless.le
    · rw [exchange_of_ne d hhole hne]
      by_cases hparent : i / 2 = hole
      · rw [hparent, exchange_left]
        exact h.grand hroot i hin hparent
      · by_cases hsibling : i / 2 = hole / 2
        · rw [hsibling, exchange_right]
          exact hless.le.trans (hsibling ▸ h.except i hi hin hhole)
        · rw [exchange_of_ne d hparent hsibling]
          exact h.except i hi hin hhole
  · intro hgrand c hc hchild
    have hupper : key (d (hole / 2 / 2)) ≤ key (d (hole / 2)) :=
      h.except (hole / 2) hgrand (by omega) (by omega)
    rw [exchange_of_ne d (by omega) (by omega)]
    by_cases hhole : c = hole
    · rw [hhole, exchange_left]
      exact hupper
    · rw [exchange_of_ne d hhole (by omega)]
      exact hupper.trans (hchild ▸ h.except c (by omega) hc hhole)

/-- The sift may stop at the root or below a parent that is not larger. -/
theorem finish (h : UpOrdered key d n hole)
    (hstop : 1 < hole → key (d (hole / 2)) ≤ key (d hole)) : Ordered key d n := by
  intro i hi hin
  by_cases hhole : i = hole
  · rw [hhole] at hi ⊢
    exact hstop hi
  · exact h.except i hi hin hhole

/-- An entry appended behind an ordered array. -/
theorem append (hordered : Ordered key d n) (x : α) :
    UpOrdered key (Function.update d n x) (n + 1) n := by
  constructor
  · intro i hi hin hne
    rw [Function.update_of_ne (by omega), Function.update_of_ne hne]
    exact hordered i hi (by omega)
  · intro hn c hc hchild
    omega

/-- One entry, or its key, replaced by another that is not larger. -/
theorem of_ordered (hordered : Ordered key d n) {key' : α → β} {d' : Nat → α} {m : Nat}
    (hm : m ≤ n) (hsame : ∀ i, 1 ≤ i → i < m → i ≠ hole → key' (d' i) = key (d i))
    (hhole : key' (d' hole) ≤ key (d hole)) : UpOrdered key' d' m hole := by
  constructor
  · intro i hi hin hne
    rw [hsame i (by omega) hin hne]
    by_cases hparent : i / 2 = hole
    · rw [hparent]
      exact hhole.trans (hparent ▸ hordered i hi (by omega))
    · rw [hsame (i / 2) (by omega) (by omega) hparent]
      exact hordered i hi (by omega)
  · intro hroot c hc hchild
    rw [hsame c (by omega) hc (by omega), hsame (hole / 2) (by omega) (by omega) (by omega)]
    exact (hordered hole hroot (by omega)).trans (hchild ▸ hordered c (by omega) (by omega))

end UpOrdered

/-- In order except between `hole` and its children. -/
structure DownOrdered (key : α → β) (d : Nat → α) (n hole : Nat) : Prop where
  except : ∀ i, 1 < i → i < n → i / 2 ≠ hole → key (d (i / 2)) ≤ key (d i)
  grand : 1 < hole → ∀ c, c < n → c / 2 = hole → key (d (hole / 2)) ≤ key (d c)

namespace DownOrdered

variable {key : α → β} {d : Nat → α} {n hole c : Nat}

/-- The entry in the hole exchanges places with its smaller child `c`. -/
theorem move (h : DownOrdered key d n hole) (hpos : 1 ≤ hole) (hc : c < n)
    (hchild : c / 2 = hole) (hmin : ∀ i, i < n → i / 2 = hole → key (d c) ≤ key (d i))
    (hless : key (d c) < key (d hole)) :
    DownOrdered key (exchange d hole c) n c := by
  constructor
  · intro i hi hin hne
    by_cases hparent : i / 2 = hole
    · rw [hparent, exchange_left]
      by_cases hic : i = c
      · rw [hic, exchange_right]
        exact hless.le
      · rw [exchange_of_ne d (by omega) hic]
        exact hmin i hin hparent
    · rw [exchange_of_ne d hparent hne]
      by_cases hhole : i = hole
      · rw [hhole, exchange_left]
        exact h.grand (by omega) c hc hchild
      · rw [exchange_of_ne d hhole (by omega)]
        exact h.except i hi hin hparent
  · intro _ i hi hgrandchild
    rw [hchild, exchange_left, exchange_of_ne d (by omega) (by omega)]
    exact hgrandchild ▸ h.except i (by omega) hi (by omega)

/-- The sift may stop where no child is smaller. -/
theorem finish (h : DownOrdered key d n hole)
    (hstop : ∀ i, i < n → i / 2 = hole → key (d hole) ≤ key (d i)) : Ordered key d n := by
  intro i hi hin
  by_cases hparent : i / 2 = hole
  · rw [hparent]
    exact hstop i hin hparent
  · exact h.except i hi hin hparent

/-- A new entry at the root of an array that was in order. -/
theorem replaceRoot (hordered : Ordered key d n) (x : α) {m : Nat} (hm : m ≤ n) :
    DownOrdered key (Function.update d 1 x) m 1 := by
  constructor
  · intro i hi hin hne
    rw [Function.update_of_ne hne, Function.update_of_ne (by omega)]
    exact hordered i hi (by omega)
  · intro hlt
    omega

/-- One entry, or its key, replaced by another that is not smaller. -/
theorem of_ordered (hordered : Ordered key d n) {key' : α → β} {d' : Nat → α} {m : Nat}
    (hm : m ≤ n) (hsame : ∀ i, 1 ≤ i → i < m → i ≠ hole → key' (d' i) = key (d i))
    (hhole : key (d hole) ≤ key' (d' hole)) : DownOrdered key' d' m hole := by
  constructor
  · intro i hi hin hne
    rw [hsame (i / 2) (by omega) (by omega) hne]
    by_cases hih : i = hole
    · rw [hih]
      exact (hih ▸ hordered i hi (by omega)).trans hhole
    · rw [hsame i (by omega) hin hih]
      exact hordered i hi (by omega)
  · intro hroot c hc hchild
    rw [hsame c (by omega) hc (by omega), hsame (hole / 2) (by omega) (by omega) (by omega)]
    exact (hordered hole hroot (by omega)).trans (hchild ▸ hordered c (by omega) (by omega))

end DownOrdered

/-- Index `i` is `root` or below it. -/
inductive Under (root : Nat) : Nat → Prop where
  | root : Under root root
  | left {i : Nat} (hi : Under root i) : Under root (2 * i)
  | right {i : Nat} (hi : Under root i) : Under root (2 * i + 1)

namespace Under

theorem le {root i : Nat} (hi : Under root i) : root ≤ i := by
  induction hi with
  | root => exact Nat.le_refl root
  | left _ ih => omega
  | right _ ih => omega

theorem trans {root middle i : Nat} (hmiddle : Under root middle) (hi : Under middle i) :
    Under root i := by
  induction hi with
  | root => exact hmiddle
  | left _ ih => exact .left ih
  | right _ ih => exact .right ih

/-- Below an index are its two children with all that is below them. -/
theorem cases_child {root i : Nat} (hi : Under root i) :
    i = root ∨ Under (2 * root) i ∨ Under (2 * root + 1) i := by
  induction hi with
  | root => exact .inl rfl
  | left _ ih =>
      obtain rfl | hleft | hright := ih
      · exact .inr (.inl .root)
      · exact .inr (.inl (.left hleft))
      · exact .inr (.inr (.left hright))
  | right _ ih =>
      obtain rfl | hleft | hright := ih
      · exact .inr (.inr .root)
      · exact .inr (.inl (.right hleft))
      · exact .inr (.inr (.right hright))

theorem of_pos {i : Nat} (hi : 1 ≤ i) : Under 1 i := by
  induction i using Nat.strong_induction_on with
  | _ i ih =>
      by_cases hroot : i = 1
      · exact hroot ▸ .root
      · have hparent := ih (i / 2) (by omega) (by omega)
        obtain heven | hodd := Nat.mod_two_eq_zero_or_one i
        · have hi : i = 2 * (i / 2) := by omega
          rw [hi]
          exact .left hparent
        · have hi : i = 2 * (i / 2) + 1 := by omega
          rw [hi]
          exact .right hparent

end Under

/-- The entries below `root` are in order. -/
def OrderedUnder (key : α → β) (d : Nat → α) (n root : Nat) : Prop :=
  ∀ i, Under root i → i ≠ root → i < n → key (d (i / 2)) ≤ key (d i)

/-- The order of a subtree, checked at its root and in the subtrees of the children. -/
theorem orderedUnder_iff {key : α → β} {d : Nat → α} {n root : Nat} (hroot : 1 ≤ root) :
    OrderedUnder key d n root ↔
      (2 * root < n → key (d root) ≤ key (d (2 * root)) ∧ OrderedUnder key d n (2 * root)) ∧
        (2 * root + 1 < n → key (d root) ≤ key (d (2 * root + 1)) ∧
          OrderedUnder key d n (2 * root + 1)) := by
  have hhalf : 2 * root / 2 = root ∧ (2 * root + 1) / 2 = root := by omega
  constructor
  · intro hordered
    constructor
    · intro hlt
      have hedge := hordered _ (.left .root) (by omega) hlt
      rw [hhalf.1] at hedge
      refine ⟨hedge, fun i hi _ hin => hordered i (Under.trans (.left .root) hi) ?_ hin⟩
      have hle := hi.le
      omega
    · intro hlt
      have hedge := hordered _ (.right .root) (by omega) hlt
      rw [hhalf.2] at hedge
      refine ⟨hedge, fun i hi _ hin => hordered i (Under.trans (.right .root) hi) ?_ hin⟩
      have hle := hi.le
      omega
  · rintro ⟨hleft, hright⟩ i hi hne hin
    obtain rfl | hbelow | hbelow := hi.cases_child
    · exact absurd rfl hne
    · obtain ⟨hedge, hordered⟩ := hleft (hbelow.le.trans_lt hin)
      by_cases hchild : i = 2 * root
      · rw [hchild, hhalf.1]
        exact hedge
      · exact hordered i hbelow hchild hin
    · obtain ⟨hedge, hordered⟩ := hright (hbelow.le.trans_lt hin)
      by_cases hchild : i = 2 * root + 1
      · rw [hchild, hhalf.2]
        exact hedge
      · exact hordered i hbelow hchild hin

theorem ordered_iff_under {key : α → β} {d : Nat → α} {n : Nat} :
    Ordered key d n ↔ OrderedUnder key d n 1 := by
  constructor
  · intro hordered i hi hne hin
    have hle := hi.le
    exact hordered i (by omega) hin
  · intro hordered i hi hin
    exact hordered i (.of_pos (by omega)) (by omega) hin

/-! ## Contents -/

/-- The entries `1, ..., n - 1`, with their multiplicities. -/
def contents (d : Nat → α) (n : Nat) : Multiset α := (Finset.Ico 1 n).val.map d

theorem mem_contents {d : Nat → α} {n : Nat} {x : α} :
    x ∈ contents d n ↔ ∃ i, 1 ≤ i ∧ i < n ∧ d i = x := by
  simp [contents, and_assoc]

theorem contents_congr {d d' : Nat → α} {n : Nat}
    (hsame : ∀ i, 1 ≤ i → i < n → d i = d' i) : contents d n = contents d' n :=
  Multiset.map_congr rfl fun i hi => by
    have hrange : 1 ≤ i ∧ i < n := by simpa using hi
    exact hsame i hrange.1 hrange.2

theorem contents_exchange (d : Nat → α) {n i j : Nat} (hi : 1 ≤ i ∧ i < n)
    (hj : 1 ≤ j ∧ j < n) : contents (exchange d i j) n = contents d n := by
  have hrange : (Finset.Ico 1 n).map (Equiv.swap i j).toEmbedding = Finset.Ico 1 n := by
    ext k
    simp only [Finset.mem_map_equiv, Equiv.symm_swap, Finset.mem_Ico]
    by_cases hki : k = i
    · simp [hki, hi, hj]
    · by_cases hkj : k = j
      · simp [hkj, hi, hj]
      · rw [Equiv.swap_apply_of_ne_of_ne hki hkj]
  calc contents (exchange d i j) n
      = ((Finset.Ico 1 n).val.map (Equiv.swap i j)).map d := by
        rw [Multiset.map_map]
        rfl
    _ = ((Finset.Ico 1 n).map (Equiv.swap i j).toEmbedding).val.map d := by
        rw [Finset.map_val]
        rfl
    _ = contents d n := by rw [hrange, contents]

theorem contents_succ (d : Nat → α) {n : Nat} (hn : 1 ≤ n) :
    contents d (n + 1) = d n ::ₘ contents d n := by
  have hrange : Finset.Ico 1 (n + 1) = Finset.cons n (Finset.Ico 1 n) (by simp) := by
    ext k
    simp only [Finset.mem_Ico, Finset.mem_cons]
    omega
  rw [contents, hrange, Finset.cons_val, Multiset.map_cons, contents]

theorem contents_append (d : Nat → α) {n : Nat} (hn : 1 ≤ n) (x : α) :
    contents (Function.update d n x) (n + 1) = x ::ₘ contents d n := by
  rw [contents_succ _ hn, Function.update_self]
  refine congrArg _ (contents_congr fun i _ hi => ?_)
  exact Function.update_of_ne (Nat.ne_of_lt hi) x d

/-- Taking an entry out and filling its place with the last one. -/
theorem contents_replace (d : Nat → α) {n i : Nat} (hi : 1 ≤ i) (hn : i ≤ n) :
    contents d (n + 1) = d i ::ₘ contents (Function.update d i (d n)) n := by
  rw [← contents_exchange d (i := i) (j := n) (by omega) (by omega), contents_succ _ (by omega),
    exchange_right]
  refine congrArg _ (contents_congr fun k _ hkn => ?_)
  by_cases hki : k = i
  · rw [hki, exchange_left, Function.update_self]
  · rw [exchange_of_ne d hki (by omega), Function.update_of_ne hki]

/-- Taking the root out and filling its place with the last entry. -/
theorem contents_replaceRoot (d : Nat → α) {n : Nat} (hn : 1 ≤ n) :
    contents d (n + 1) = d 1 ::ₘ contents (Function.update d 1 (d n)) n :=
  contents_replace d (Nat.le_refl 1) hn

/-- Entries that keep their own index in a memory, as far as it is below `limit`. -/
structure Positions (M : Type w) (α : Type u) where
  get : M → α → Nat
  set : M → α → Nat → M
  limit : Nat
  get_set_self : ∀ m x i, i < limit → get (set m x i) x = i
  get_set_of_ne : ∀ m x y i, y ≠ x → get (set m x i) y = get m y

namespace Positions

variable {M : Type w} (positions : Positions M α) (m : M) (d : Nat → α) (n : Nat)

/-- Every entry knows its index. -/
def Indexed : Prop := ∀ i, 1 ≤ i → i < n → positions.get m (d i) = i

/-- Every entry but the one in the hole knows its index, and that one is nowhere else. -/
def IndexedBut (hole : Nat) : Prop :=
  ∀ i, 1 ≤ i → i < n → i ≠ hole → positions.get m (d i) = i ∧ d i ≠ d hole

variable {positions m d n}

theorem IndexedBut.move {hole c : Nat} (h : positions.IndexedBut m d n hole)
    (hlimit : n ≤ positions.limit) (hhole : 1 ≤ hole ∧ hole < n) (hc : 1 ≤ c ∧ c < n)
    (hne : c ≠ hole) :
    positions.IndexedBut (positions.set m (d c) hole) (exchange d hole c) n c := by
  obtain ⟨hindex, hapart⟩ := h c hc.1 hc.2 hne
  intro i hi hin hic
  rw [exchange_right]
  by_cases hih : i = hole
  · rw [hih, exchange_left]
    exact ⟨positions.get_set_self _ _ _ (by omega), hapart⟩
  · obtain ⟨hother, hdistinct⟩ := h i hi hin hih
    rw [exchange_of_ne d hih hic]
    refine ⟨?_, hdistinct⟩
    rw [positions.get_set_of_ne, hother]
    intro hsame
    rw [hsame, hindex] at hother
    exact hic hother.symm

theorem IndexedBut.finish {hole : Nat} (h : positions.IndexedBut m d n hole)
    (hlimit : n ≤ positions.limit) : positions.Indexed (positions.set m (d hole) hole) d n := by
  intro i hi hin
  by_cases hih : i = hole
  · rw [hih]
    exact positions.get_set_self _ _ _ (by omega)
  · obtain ⟨hindex, hapart⟩ := h i hi hin hih
    rw [positions.get_set_of_ne _ _ _ _ hapart, hindex]

/-- Entries that know their indices are distinct. -/
theorem Indexed.nodup (h : positions.Indexed m d n) : (contents d n).Nodup := by
  refine Multiset.Nodup.map_on ?_ (Finset.Ico 1 n).nodup
  intro i hi j hj hsame
  have hirange : 1 ≤ i ∧ i < n := by simpa using hi
  have hjrange : 1 ≤ j ∧ j < n := by simpa using hj
  rw [← h i hirange.1 hirange.2, ← h j hjrange.1 hjrange.2, hsame]

/-- An entry stands at the index that it knows. -/
theorem Indexed.get_mem (h : positions.Indexed m d n) {x : α} (hx : x ∈ contents d n) :
    1 ≤ positions.get m x ∧ positions.get m x < n ∧ d (positions.get m x) = x := by
  obtain ⟨i, hi, hin, rfl⟩ := mem_contents.mp hx
  rw [h i hi hin]
  exact ⟨hi, hin, rfl⟩

/-- One entry replaced by another that is new, or by the last one, which moves. -/
theorem Indexed.replace (h : positions.Indexed m d n) {x : α} {m' : M} {n' hole : Nat}
    (hkept : ∀ i, 1 ≤ i → i < n' → i ≠ hole → i < n ∧ d i ≠ x ∧
      positions.get m' (d i) = positions.get m (d i)) :
    positions.IndexedBut m' (Function.update d hole x) n' hole := by
  intro i hi hin hne
  obtain ⟨hlt, hapart, hsame⟩ := hkept i hi hin hne
  rw [Function.update_of_ne hne, Function.update_self, hsame]
  exact ⟨h i hi hlt, hapart⟩

end Positions

end CsInternal.Library.Heap
