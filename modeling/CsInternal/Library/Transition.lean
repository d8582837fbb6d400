import Mathlib.Data.List.Basic

/-!
# Labelled transition systems

Runs carry the list of labels they emit.  The module gives the two rules by
which every system of the development is analysed: an inductive invariant
holds in every reachable state, and a step-by-step simulation transports whole
runs together with their visible labels.
-/

namespace CsInternal.Library

universe u v w x

/-- A nondeterministic system with labelled steps. -/
structure System (σ : Type u) (α : Type v) where
  init : σ → Prop
  step : σ → α → σ → Prop

namespace System

variable {σ : Type u} {α : Type v} {τ : Type w} {β : Type x}

/-- A finite run, with the labels in the order in which they were emitted. -/
inductive Run (S : System σ α) : σ → List α → σ → Prop where
  | refl (s : σ) : Run S s [] s
  | tail {s t r : σ} {trace : List α} {a : α} :
      Run S s trace t → S.step t a r → Run S s (trace ++ [a]) r

/-- The system cut down to its admitted steps. -/
def restrict (S : System σ α) (admitted : σ → α → Prop) : System σ α where
  init := S.init
  step s a t := S.step s a t ∧ admitted s a

/-- States at the end of a run from an initial state. -/
def Reachable (S : System σ α) (s : σ) : Prop :=
  ∃ start trace, S.init start ∧ S.Run start trace s

namespace Run

theorem single {S : System σ α} {s t : σ} {a : α} (hstep : S.step s a t) :
    S.Run s [a] t :=
  .tail (.refl s) hstep

theorem trans {S : System σ α} {s t r : σ} {first second : List α}
    (hfirst : S.Run s first t) (hsecond : S.Run t second r) :
    S.Run s (first ++ second) r := by
  induction hsecond with
  | refl => simpa using hfirst
  | tail hearlier hstep ih =>
      rw [← List.append_assoc]
      exact .tail ih hstep

theorem head {S : System σ α} {s t r : σ} {a : α} {trace : List α}
    (hstep : S.step s a t) (hrest : S.Run t trace r) : S.Run s (a :: trace) r := by
  simpa using (single hstep).trans hrest

/-- A property kept by every step is kept by every run. -/
theorem preserves {S : System σ α} {P : σ → Prop}
    (hkeep : ∀ s a t, P s → S.step s a t → P t)
    {s t : σ} {trace : List α} (hrun : S.Run s trace t) (hs : P s) : P t := by
  induction hrun with
  | refl => exact hs
  | tail _ hstep ih => exact hkeep _ _ _ ih hstep

/-- A property kept by every step whose label is admitted is kept by every run
over admitted labels. -/
theorem preserves_of_labels {S : System σ α} {P : σ → Prop} {admitted : α → Prop}
    (hkeep : ∀ s a t, P s → admitted a → S.step s a t → P t)
    {s t : σ} {trace : List α} (hrun : S.Run s trace t)
    (hlabels : ∀ a ∈ trace, admitted a) (hs : P s) : P t := by
  induction hrun with
  | refl => exact hs
  | tail _ hstep ih =>
      have hearlier := ih (fun a ha => hlabels a (List.mem_append_left _ ha))
      exact hkeep _ _ _ hearlier (hlabels _ (by simp)) hstep

/-- A run whose labels are admitted wherever they come. -/
theorem restrict {S : System σ α} {admitted : σ → α → Prop} {s t : σ} {trace : List α}
    (hrun : S.Run s trace t) (hlabels : ∀ a ∈ trace, ∀ s, admitted s a) :
    (S.restrict admitted).Run s trace t := by
  induction hrun with
  | refl => exact .refl _
  | tail _ hstep ih =>
      have hearlier := ih fun a ha => hlabels a (List.mem_append_left _ ha)
      exact .tail hearlier ⟨hstep, hlabels _ (by simp) _⟩

end Run

namespace Reachable

theorem of_init {S : System σ α} {s : σ} (hinit : S.init s) : S.Reachable s :=
  ⟨s, [], hinit, .refl s⟩

theorem step {S : System σ α} {s t : σ} {a : α} (hs : S.Reachable s)
    (hstep : S.step s a t) : S.Reachable t := by
  obtain ⟨start, trace, hinit, hrun⟩ := hs
  exact ⟨start, trace ++ [a], hinit, hrun.tail hstep⟩

theorem step_admitted {S : System σ α} {admitted : σ → α → Prop} {s t : σ} {a : α}
    (hs : (S.restrict admitted).Reachable s) (hstep : S.step s a t) (ha : admitted s a) :
    (S.restrict admitted).Reachable t :=
  hs.step ⟨hstep, ha⟩

theorem of_restrict {S : System σ α} {admitted : σ → α → Prop} {s : σ}
    (hs : (S.restrict admitted).Reachable s) : S.Reachable s := by
  obtain ⟨start, trace, hinit, hrun⟩ := hs
  refine ⟨start, trace, hinit, ?_⟩
  induction hrun with
  | refl => exact .refl _
  | tail _ hstep ih => exact .tail ih hstep.1

/-- The invariant rule. -/
theorem invariant {S : System σ α} {P : σ → Prop}
    (hinit : ∀ s, S.init s → P s)
    (hkeep : ∀ s a t, P s → S.step s a t → P t)
    {s : σ} (hs : S.Reachable s) : P s := by
  obtain ⟨start, trace, hstart, hrun⟩ := hs
  exact hrun.preserves hkeep (hinit start hstart)

end Reachable

/-- The system with a ghost beside its state: it records the steps, and decides none. -/
def withGhost (S : System σ α) (start : τ) (record : σ → α → τ → τ) : System (σ × τ) α where
  init p := S.init p.1 ∧ p.2 = start
  step p a q := S.step p.1 a q.1 ∧ q.2 = record p.1 a p.2

section

variable {S : System σ α} {start : τ} {record : σ → α → τ → τ}

theorem Reachable.of_withGhost {p : σ × τ} (h : (S.withGhost start record).Reachable p) :
    S.Reachable p.1 := by
  obtain ⟨first, trace, hinit, hrun⟩ := h
  have hkeep : ∀ (p : σ × τ) a q, S.Reachable p.1 → (S.withGhost start record).step p a q →
      S.Reachable q.1 := fun _ _ _ hp hstep => hp.step hstep.1
  exact hrun.preserves hkeep (.of_init hinit.1)

/-- Every state has its ghost. -/
theorem Reachable.exists_ghost {s : σ} (h : S.Reachable s) :
    ∃ ghost, (S.withGhost start record).Reachable (s, ghost) := by
  obtain ⟨first, trace, hinit, hrun⟩ := h
  refine hrun.preserves (P := fun s => ∃ ghost, (S.withGhost start record).Reachable (s, ghost))
    ?_ ⟨start, .of_init ⟨hinit, rfl⟩⟩
  rintro s a t ⟨ghost, hghost⟩ hstep
  exact ⟨record s a ghost, hghost.step ⟨hstep, rfl⟩⟩

end

/--
A forward simulation.  `visible` says which label of the abstract system, if
any, a concrete label stands for; a concrete step without one leaves the
abstract state as it is.
-/
structure Simulation (C : System σ α) (A : System τ β) (visible : α → Option β)
    (R : σ → τ → Prop) : Prop where
  init : ∀ s, C.init s → ∃ t, A.init t ∧ R s t
  silent : ∀ s a s' t, R s t → C.step s a s' → visible a = none → R s' t
  shown : ∀ s a s' t b, R s t → C.step s a s' → visible a = some b →
    ∃ t', A.step t b t' ∧ R s' t'

/-- What the abstract system does in answer to a concrete step that stands for
the given label. -/
inductive Answer (A : System τ β) (R : τ → Prop) (t : τ) : Option β → Prop where
  | silent : R t → Answer A R t none
  | shown {b : β} {t' : τ} : A.step t b t' → R t' → Answer A R t (some b)

/-- The simulation rule. -/
theorem Simulation.of_answers {C : System σ α} {A : System τ β} {visible : α → Option β}
    {R : σ → τ → Prop} (hinit : ∀ s, C.init s → ∃ t, A.init t ∧ R s t)
    (hanswer : ∀ s a s' t, R s t → C.step s a s' → A.Answer (R s') t (visible a)) :
    Simulation C A visible R where
  init := hinit
  silent s a s' t hrel hstep hlabel := by
    have answer := hanswer s a s' t hrel hstep
    rw [hlabel] at answer
    cases answer with
    | silent hrel' => exact hrel'
  shown s a s' t b hrel hstep hlabel := by
    have answer := hanswer s a s' t hrel hstep
    rw [hlabel] at answer
    cases answer with
    | shown hstep' hrel' => exact ⟨_, hstep', hrel'⟩

/-- A simulation transports every run, with its visible labels in order. -/
theorem Simulation.run {C : System σ α} {A : System τ β} {visible : α → Option β}
    {R : σ → τ → Prop} (sim : Simulation C A visible R)
    {s s' : σ} {trace : List α} (hrun : C.Run s trace s') {t : τ} (hrel : R s t) :
    ∃ t', A.Run t (trace.filterMap visible) t' ∧ R s' t' := by
  induction hrun with
  | refl => exact ⟨t, .refl t, hrel⟩
  | @tail middle last trace a hearlier hstep ih =>
      obtain ⟨tm, hmiddle, hrelMiddle⟩ := ih
      cases hlabel : visible a with
      | none =>
          refine ⟨tm, ?_, sim.silent _ _ _ _ hrelMiddle hstep hlabel⟩
          simpa [List.filterMap_append, hlabel] using hmiddle
      | some b =>
          obtain ⟨t', hstep', hrel'⟩ := sim.shown _ _ _ _ _ hrelMiddle hstep hlabel
          refine ⟨t', ?_, hrel'⟩
          simpa [List.filterMap_append, hlabel] using hmiddle.tail hstep'

end System

end CsInternal.Library
