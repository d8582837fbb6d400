import Mathlib.Data.Nat.Notation

/-!
# Loops

A loop is the function of one turn: from the state at its head it leaves with a
result or comes back with the next state.  Termination is a statement about
the number of turns, so it is not built into the definition of a loop.
-/

namespace CsInternal.Library

universe u v

namespace Loop

variable {σ : Type u} {ρ : Type v} {turn : σ → ρ ⊕ σ}

/-- The loop entered at `s` leaves with `r` after `n` turns that come back. -/
inductive Exits (turn : σ → ρ ⊕ σ) : σ → ℕ → ρ → Prop where
  | leave {s : σ} {r : ρ} : turn s = .inl r → Exits turn s 0 r
  | again {s t : σ} {n : ℕ} {r : ρ} :
      turn s = .inr t → Exits turn t n r → Exits turn s (n + 1) r

/-- The states at the head of the loop entered at `s`. -/
inductive Visits (turn : σ → ρ ⊕ σ) : σ → σ → Prop where
  | here (s : σ) : Visits turn s s
  | again {s t u : σ} : turn s = .inr t → Visits turn t u → Visits turn s u

theorem Exits.unique {s : σ} {n m : ℕ} {r q : ρ} (hfirst : Exits turn s n r)
    (hsecond : Exits turn s m q) : n = m ∧ r = q := by
  induction hfirst generalizing m with
  | leave hturn =>
      cases hsecond with
      | leave hturn' => exact ⟨rfl, Sum.inl.inj (hturn.symm.trans hturn')⟩
      | again hturn' _ => cases hturn.symm.trans hturn'
  | again hturn _ ih =>
      cases hsecond with
      | leave hturn' => cases hturn.symm.trans hturn'
      | again hturn' hrest =>
          cases hturn.symm.trans hturn'
          obtain ⟨rfl, hsame⟩ := ih hrest
          exact ⟨rfl, hsame⟩

/-- A loop that leaves does so from every state that it visits. -/
theorem Exits.of_visits {s t : σ} {n : ℕ} {r : ρ} (hexits : Exits turn s n r)
    (hvisits : Visits turn s t) : ∃ m ≤ n, Exits turn t m r := by
  induction hvisits generalizing n with
  | here => exact ⟨n, Nat.le_refl n, hexits⟩
  | again hturn _ ih =>
      cases hexits with
      | leave hturn' => cases hturn.symm.trans hturn'
      | again hturn' hrest =>
          cases hturn.symm.trans hturn'
          obtain ⟨m, hle, hm⟩ := ih hrest
          exact ⟨m, Nat.le_succ_of_le hle, hm⟩

/-- The turn that leaves. -/
theorem Exits.last {s : σ} {n : ℕ} {r : ρ} (hexits : Exits turn s n r) :
    ∃ t, Visits turn s t ∧ turn t = .inl r := by
  induction hexits with
  | leave hturn => exact ⟨_, .here _, hturn⟩
  | again hturn _ ih =>
      obtain ⟨t, hvisits, hleave⟩ := ih
      exact ⟨t, .again hturn hvisits, hleave⟩

/-- A loop does not leave from states from which every turn comes back. -/
theorem not_exits {P : σ → Prop} (hkeep : ∀ s, P s → ∃ t, turn s = .inr t ∧ P t)
    {s : σ} (hs : P s) (n : ℕ) (r : ρ) : ¬ Exits turn s n r := by
  intro hexits
  induction hexits with
  | leave hturn =>
      obtain ⟨t, hback, _⟩ := hkeep _ hs
      cases hturn.symm.trans hback
  | again hturn _ ih =>
      obtain ⟨t, hback, ht⟩ := hkeep _ hs
      cases hturn.symm.trans hback
      exact ih ht

/-- A loop whose states at the head are known in advance leaves at the first of them
whose turn does not come back. -/
theorem exits_iff_of_states {state : ℕ → σ}
    (hnext : ∀ m t, turn (state m) = .inr t → t = state (m + 1)) {k n : ℕ} {r : ρ} :
    Exits turn (state k) n r ↔
      (∀ m < n, ∃ t, turn (state (k + m)) = .inr t) ∧ turn (state (k + n)) = .inl r := by
  induction n generalizing k with
  | zero =>
      constructor
      · rintro (hturn | _)
        exact ⟨fun m hm => absurd hm (Nat.not_lt_zero m), hturn⟩
      · rintro ⟨-, hturn⟩
        exact .leave hturn
  | succ n ih =>
      have hindex : ∀ m, k + 1 + m = k + (m + 1) := fun m => by omega
      constructor
      · rintro (_ | ⟨hturn, hrest⟩)
        obtain rfl := hnext _ _ hturn
        obtain ⟨hback, hleave⟩ := ih.mp hrest
        refine ⟨fun m hm => ?_, hindex n ▸ hleave⟩
        cases m with
        | zero => exact ⟨_, hturn⟩
        | succ m => exact hindex m ▸ hback m (Nat.lt_of_succ_lt_succ hm)
      · rintro ⟨hback, hleave⟩
        obtain ⟨t, hturn⟩ := hback 0 (Nat.succ_pos n)
        have htail : turn (state k) = .inr (state (k + 1)) := by
          rw [← hnext _ _ hturn]
          exact hturn
        refine .again htail (ih.mpr ⟨fun m hm => ?_, hindex n ▸ hleave⟩)
        rw [hindex]
        exact hback (m + 1) (Nat.succ_lt_succ hm)

/-- What the loop leaves with in at most `fuel` turns, the one that leaves included. -/
def run (turn : σ → ρ ⊕ σ) : ℕ → σ → Option ρ
  | 0, _ => none
  | fuel + 1, s => (turn s).elim some (run turn fuel)

theorem run_eq_some_iff {fuel : ℕ} {s : σ} {r : ρ} :
    run turn fuel s = some r ↔ ∃ n < fuel, Exits turn s n r := by
  induction fuel generalizing s with
  | zero => simp [run]
  | succ fuel ih =>
      rw [run]
      cases hturn : turn s with
      | inl q =>
          constructor
          · intro h
            obtain rfl := Option.some.inj h
            exact ⟨0, Nat.succ_pos fuel, .leave hturn⟩
          · rintro ⟨n, -, hexits⟩
            exact congrArg some (Exits.unique (.leave hturn) hexits).2
      | inr t =>
          rw [Sum.elim_inr, ih]
          constructor
          · rintro ⟨n, hn, hexits⟩
            exact ⟨n + 1, Nat.succ_lt_succ hn, .again hturn hexits⟩
          · rintro ⟨n, hn, hexits⟩
            cases hexits with
            | leave hturn' => cases hturn.symm.trans hturn'
            | again hturn' hrest =>
                cases hturn.symm.trans hturn'
                exact ⟨_, Nat.lt_of_succ_lt_succ hn, hrest⟩

/-- A loop that leaves after `n` turns does so under every larger bound, and under
no other. -/
theorem Exits.run_eq {s : σ} {n : ℕ} {r : ρ} (hexits : Exits turn s n r) (fuel : ℕ) :
    run turn fuel s = if n < fuel then some r else none := by
  split
  · rename_i hlt
    exact run_eq_some_iff.mpr ⟨n, hlt, hexits⟩
  · rename_i hge
    cases hrun : run turn fuel s with
    | none => rfl
    | some q =>
        obtain ⟨m, hm, hother⟩ := run_eq_some_iff.mp hrun
        obtain ⟨rfl, -⟩ := hexits.unique hother
        exact absurd hm hge

end Loop

end CsInternal.Library
