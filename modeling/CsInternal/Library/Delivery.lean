import CsInternal.Library.Transition

/-!
# Delivery of one content to many connections

A sender takes the content piece by piece and sends of every piece some
elements in their order.  Whatever it leaves out, each closed stream is a
sublist of the content; it is the content exactly where every piece was sent
whole.  A server is verified by viewing its states as such a delivery.
-/

namespace CsInternal.Library

universe u v w

/-- Connections are served one after the other. -/
structure Delivery (β : Type u) where
  /-- The streams of the closed connections, oldest first. -/
  finished : List (List β)
  /-- For an open connection, what was sent and what was taken from the content. -/
  current : Option (List β × List β)
  deriving DecidableEq, Repr

namespace Delivery

variable {β : Type u}

def start : Delivery β := ⟨[], none⟩

inductive Action (β : Type u) where
  | accept
  | send (piece sent : List β)
  | close

/-- The piece is sent whole. -/
def Action.Full : Action β → Prop
  | .send piece sent => sent = piece
  | _ => True

inductive Step (content : List β) : Delivery β → Action β → Delivery β → Prop where
  | accept (finished : List (List β)) :
      Step content ⟨finished, none⟩ .accept ⟨finished, some ([], [])⟩
  | send (finished : List (List β)) (before taken piece sent : List β)
      (hsent : sent.Sublist piece) (htaken : taken ++ piece <+: content) :
      Step content ⟨finished, some (before, taken)⟩ (.send piece sent)
        ⟨finished, some (before ++ sent, taken ++ piece)⟩
  | close (finished : List (List β)) (before : List β) :
      Step content ⟨finished, some (before, content)⟩ .close ⟨finished ++ [before], none⟩

/-- Nothing is sent twice or out of order. -/
structure Ordered (content : List β) (d : Delivery β) : Prop where
  finished : ∀ stream ∈ d.finished, stream.Sublist content
  sent : ∀ sent taken, d.current = some (sent, taken) → sent.Sublist taken
  taken : ∀ sent taken, d.current = some (sent, taken) → taken <+: content

/-- Nothing is left out. -/
structure Exact (content : List β) (d : Delivery β) : Prop where
  finished : ∀ stream ∈ d.finished, stream = content
  sent : ∀ sent taken, d.current = some (sent, taken) → sent = taken

theorem start_ordered (content : List β) : (start : Delivery β).Ordered content where
  finished _ hmem := by cases hmem
  sent _ _ hcurrent := by cases hcurrent
  taken _ _ hcurrent := by cases hcurrent

theorem start_exact (content : List β) : (start : Delivery β).Exact content where
  finished _ hmem := by cases hmem
  sent _ _ hcurrent := by cases hcurrent

/-- A piece that falls short is never made up for. -/
theorem append_eq_append_iff_of_sublist {first first' second second' : List β}
    (hfirst : first.Sublist first') (hsecond : second.Sublist second') :
    first ++ second = first' ++ second' ↔ first = first' ∧ second = second' := by
  constructor
  · intro hsame
    have hlength := congrArg List.length hsame
    have hle := hfirst.length_le
    have hle' := hsecond.length_le
    simp only [List.length_append] at hlength
    exact ⟨hfirst.eq_of_length (by omega), hsecond.eq_of_length (by omega)⟩
  · rintro ⟨rfl, rfl⟩
    rfl

variable {content : List β} {d d' : Delivery β} {a : Action β}

theorem Step.ordered (hstep : Step content d a d') (hordered : d.Ordered content) :
    d'.Ordered content := by
  cases hstep with
  | accept finished =>
      refine ⟨hordered.finished, fun sent taken hcurrent => ?_, fun sent taken hcurrent => ?_⟩
      · cases hcurrent
        exact .slnil
      · cases hcurrent
        exact List.nil_prefix
  | send finished before taken piece sent hsent htaken =>
      refine ⟨hordered.finished, fun _ _ hcurrent => ?_, fun _ _ hcurrent => ?_⟩
      · cases hcurrent
        exact (hordered.sent _ _ rfl).append hsent
      · cases hcurrent
        exact htaken
  | close finished before =>
      refine ⟨fun stream hmem => ?_, fun _ _ hcurrent => (by cases hcurrent),
        fun _ _ hcurrent => (by cases hcurrent)⟩
      rcases List.mem_append.1 hmem with hmem | hmem
      · exact hordered.finished stream hmem
      · rw [List.mem_singleton.1 hmem]
        exact hordered.sent _ _ rfl

/-- Exactness is lost with the first piece that is not sent whole, for good. -/
theorem Step.exact_iff (hstep : Step content d a d') (hordered : d.Ordered content) :
    d'.Exact content ↔ d.Exact content ∧ a.Full := by
  cases hstep with
  | accept finished =>
      constructor
      · intro hexact
        exact ⟨⟨hexact.finished, fun _ _ hcurrent => by cases hcurrent⟩, trivial⟩
      · rintro ⟨hexact, -⟩
        refine ⟨hexact.finished, fun sent taken hcurrent => ?_⟩
        cases hcurrent
        rfl
  | send finished before taken piece sent hsent htaken =>
      have happend := append_eq_append_iff_of_sublist (hordered.sent _ _ rfl) hsent
      constructor
      · intro hexact
        obtain ⟨hbefore, hpiece⟩ := happend.1 (hexact.sent _ _ rfl)
        refine ⟨⟨hexact.finished, fun _ _ hcurrent => ?_⟩, hpiece⟩
        cases hcurrent
        exact hbefore
      · rintro ⟨hexact, hpiece⟩
        refine ⟨hexact.finished, fun _ _ hcurrent => ?_⟩
        cases hcurrent
        exact happend.2 ⟨hexact.sent _ _ rfl, hpiece⟩
  | close finished before =>
      constructor
      · intro hexact
        refine ⟨⟨fun stream hmem => hexact.finished stream (List.mem_append_left _ hmem),
          fun _ _ hcurrent => ?_⟩, trivial⟩
        cases hcurrent
        exact hexact.finished before (by simp)
      · rintro ⟨hexact, -⟩
        refine ⟨fun stream hmem => ?_, fun _ _ hcurrent => by cases hcurrent⟩
        rcases List.mem_append.1 hmem with hmem | hmem
        · exact hexact.finished stream hmem
        · rw [List.mem_singleton.1 hmem]
          exact hexact.sent _ _ rfl

/-- What a step of a server means for the delivery; `full` says of its label that
it sends whole what it sends. -/
inductive Served (content : List β) (d : Delivery β) (full : Prop) : Delivery β → Prop where
  | silent : full → Served content d full d
  | shown {a : Action β} {d' : Delivery β} :
      Step content d a d' → (a.Full ↔ full) → Served content d full d'

/-- Every step of the system is one of a delivery. -/
structure Serves {σ : Type v} {α : Type w} (S : System σ α) (content : List β)
    (view : σ → Delivery β) (full : α → Prop) (Inv : σ → Prop) : Prop where
  init : ∀ s, S.init s → Inv s ∧ view s = start
  step : ∀ s a t, Inv s → S.step s a t → Inv t ∧ Served content (view s) (full a) (view t)

theorem Served.ordered {full : Prop} (hserved : Served content d full d')
    (hordered : d.Ordered content) : d'.Ordered content := by
  cases hserved with
  | silent _ => exact hordered
  | shown hstep _ => exact hstep.ordered hordered

theorem Served.exact_iff {full : Prop} (hserved : Served content d full d')
    (hordered : d.Ordered content) : d'.Exact content ↔ d.Exact content ∧ full := by
  cases hserved with
  | silent hfull => exact ⟨fun hexact => ⟨hexact, hfull⟩, And.left⟩
  | shown hstep hfull => rw [hstep.exact_iff hordered, hfull]

variable {σ : Type v} {α : Type w} {S : System σ α} {view : σ → Delivery β}
  {full : α → Prop} {Inv : σ → Prop} {s t : σ} {trace : List α}

/-- After every run the delivery is ordered, and it is exact where all that was
sent was sent whole. -/
theorem Serves.run (hserves : Serves S content view full Inv) (hinit : S.init s)
    (hrun : S.Run s trace t) :
    Inv t ∧ (view t).Ordered content ∧ ((view t).Exact content ↔ ∀ a ∈ trace, full a) := by
  induction hrun with
  | refl =>
      obtain ⟨hinv, hview⟩ := hserves.init s hinit
      rw [hview]
      exact ⟨hinv, start_ordered content, fun _ a hmem => (by cases hmem),
        fun _ => start_exact content⟩
  | @tail middle last trace a hearlier hstep ih =>
      obtain ⟨hinv, hordered, hexact⟩ := ih
      obtain ⟨hinv', hserved⟩ := hserves.step _ _ _ hinv hstep
      refine ⟨hinv', hserved.ordered hordered, ?_⟩
      rw [hserved.exact_iff hordered, hexact]
      simp [or_imp, forall_and]

end Delivery

end CsInternal.Library
