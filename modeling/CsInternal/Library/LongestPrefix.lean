import Mathlib.Data.Nat.Find
import Mathlib.Data.List.Basic

/-!
# Longest prefixes

The longest prefix of a word that satisfies a predicate: it is unique, and it
exists as soon as some prefix satisfies the predicate.
-/

namespace CsInternal.Library

universe u

/-- `path` is the longest prefix of `word` that satisfies `P`. -/
structure LongestPrefix {α : Type u} (P : List α → Prop) (word path : List α) : Prop where
  holds : P path
  isPrefix : path <+: word
  longest : ∀ other, P other → other <+: word → other.length ≤ path.length

namespace LongestPrefix

variable {α : Type u} {P Q : List α → Prop} {word p q : List α}

theorem unique (hp : LongestPrefix P word p) (hq : LongestPrefix P word q) : p = q := by
  have hlength : p.length = q.length :=
    Nat.le_antisymm (hq.longest p hp.holds hp.isPrefix) (hp.longest q hq.holds hq.isPrefix)
  have hbegins : p <+: q :=
    List.prefix_of_prefix_length_le hp.isPrefix hq.isPrefix (Nat.le_of_eq hlength)
  exact hbegins.eq_of_length hlength

theorem exists_of_holds (hp : P p) (hbegins : p <+: word) :
    ∃ longest, LongestPrefix P word longest := by
  classical
  let matching := fun n => ∃ path, P path ∧ path <+: word ∧ path.length = n
  have hsome : matching p.length := ⟨p, hp, hbegins, rfl⟩
  have hspec : matching (Nat.findGreatest matching word.length) :=
    Nat.findGreatest_spec hbegins.length_le hsome
  obtain ⟨path, hpath, hword, hlength⟩ := hspec
  refine ⟨path, hpath, hword, fun other hother hotherPrefix => ?_⟩
  rw [hlength]
  exact Nat.le_findGreatest hotherPrefix.length_le ⟨other, hother, hotherPrefix, rfl⟩

/-- A longest prefix of a weaker kind that is of the stronger kind is the
longest of that kind too. -/
theorem of_imp (himp : ∀ path, Q path → P path) (hp : LongestPrefix P word p) (hq : Q p) :
    LongestPrefix Q word p :=
  ⟨hq, hp.isPrefix, fun other hother => hp.longest other (himp other hother)⟩

end LongestPrefix

end CsInternal.Library
