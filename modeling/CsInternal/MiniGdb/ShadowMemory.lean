import CsInternal.MiniGdb.Debugger
import CsInternal.Library.Transition

/-!
# The memory under the breakpoints

Breakpoints are set one after the other and stepped over in any order, while
the tracee does what it likes short of writing its code.  The table then always
holds the original bytes, and the memory is the original one with an `int3` in
the place of each breakpoint that is not disabled at the moment.
-/

namespace CsInternal.MiniGdb.ShadowMemory

open CsInternal.Library CsInternal.Library.ByteMemory

/-- A debugger between two operations, or inside `step_over_breakpoint` with the
breakpoint at an address disabled. -/
structure State (K : Type) where
  debugger : Debugger K
  stepping : Option Word

inductive Label where
  | setBreakpoint (addr : Word)
  | disable (pc : Word)
  | tracee
  | enable (pc : Word)
  deriving DecidableEq, Repr

section

variable {K : Type} (w : World K) (code : Word → Prop)

/-- What the tracee may become on its own: it writes no code and keeps the
words of the breakpoints mapped, and an exited process stays so. -/
structure KeepsCode (d : Debugger K) (t : Tracee K) : Prop where
  exited : d.tracee = .exited → t = .exited
  code : ∀ m sig m' sig', d.Live m sig → t = .stopped m' sig' → ∀ x, code x → m'.mem x = m.mem x
  mapped : ∀ m sig m' sig', d.Live m sig → t = .stopped m' sig' →
    ∀ a, (d.breakPoints a).isSome → accessible w m a → accessible w m' a

inductive Step : State K → Label → State K → Prop where
  | setBreakpoint (d d' : Debugger K) (addr : Word) (hnew : d.breakPoints addr = none)
      (hcode : code addr) (haccess : ∀ m sig, d.Live m sig → accessible w m addr)
      (hset : d.setBreakpoint w addr = .ok d') :
      Step ⟨d, none⟩ (.setBreakpoint addr) ⟨d', none⟩
  -- the `disable` at the head of `step_over_breakpoint`
  | disable (d : Debugger K) (bp : BreakPoint) (hbp : d.breakPoints (d.getPc w) = some bp) :
      Step ⟨d, none⟩ (.disable (d.getPc w)) ⟨d.disableAt w (d.getPc w) bp, some (d.getPc w)⟩
  -- the single step, and all that the tracee does between two operations
  | tracee (d : Debugger K) (stepping : Option Word) (t : Tracee K)
      (hkeeps : KeepsCode w code d t) :
      Step ⟨d, stepping⟩ .tracee ⟨{ d with tracee := t }, stepping⟩
  -- the `enable` at its end
  | enable (d d' : Debugger K) (pc : Word) (bp : BreakPoint) (hbp : d.breakPoints pc = some bp)
      (henable : d.enableAt w pc bp = .ok d') :
      Step ⟨d, some pc⟩ (.enable pc) ⟨d', none⟩

/-- A stopped tracee with the memory `original`, and no breakpoint. -/
def Initial (original : Memory) (s : State K) : Prop :=
  ∃ m sig, m.mem = original ∧ s.debugger.Live m sig ∧ (∀ a, s.debugger.breakPoints a = none) ∧
    s.stepping = none

def shadow (original : Memory) : System (State K) Label where
  init := Initial original
  step := Step w code

/-- The table and the memory, but for the breakpoint that is being stepped over. -/
structure Armed (original : Memory) (breakPoints : Word → Option BreakPoint)
    (stepping : Option Word) (mem : Memory) : Prop where
  saved : ∀ a bp, breakPoints a = some bp → bp.addr = a ∧ bp.savedData = original a
  enabled : ∀ a bp, breakPoints a = some bp → stepping ≠ some a →
    bp.enabled = true ∧ mem a = int3
  disabled : ∀ a, stepping = some a → ∃ bp, breakPoints a = some bp ∧ bp.enabled = false ∧
    mem a = original a
  other : ∀ x, breakPoints x = none → code x → mem x = original x

/-- `Armed` for the tracee's memory, for as long as there is one. -/
structure Inv (original : Memory) (s : State K) : Prop where
  armed : ∀ m sig, s.debugger.Live m sig →
    Armed code original s.debugger.breakPoints s.stepping m.mem
  inCode : ∀ a, (s.debugger.breakPoints a).isSome → code a
  mapped : ∀ m sig a, s.debugger.Live m sig → (s.debugger.breakPoints a).isSome →
    accessible w m a

end

variable {K : Type} {w : World K} {code : Word → Prop} {original : Memory}

theorem Armed.of_empty {table : Word → Option BreakPoint} {mem : Memory}
    (hnone : ∀ a, table a = none) : Armed code mem table none mem :=
  ⟨by simp [hnone], by simp [hnone], by simp, fun _ _ _ => rfl⟩

/-- A new breakpoint. -/
theorem Armed.set {table : Word → Option BreakPoint} {mem : Memory}
    (h : Armed code original table none mem) {addr : Word} (hnew : table addr = none)
    (hcode : code addr) :
    Armed code original (Function.update table addr (some ⟨addr, true, mem addr⟩)) none
      (Function.update mem addr int3) := by
  refine ⟨?_, ?_, by simp, ?_⟩
  · intro a bp hbp
    by_cases heq : a = addr
    · subst heq
      rw [Function.update_self, Option.some.injEq] at hbp
      subst hbp
      exact ⟨rfl, h.other a hnew hcode⟩
    · rw [Function.update_of_ne heq] at hbp
      exact h.saved a bp hbp
  · intro a bp hbp hne
    by_cases heq : a = addr
    · subst heq
      rw [Function.update_self, Option.some.injEq] at hbp
      subst hbp
      exact ⟨rfl, Function.update_self ..⟩
    · rw [Function.update_of_ne heq] at hbp ⊢
      exact h.enabled a bp hbp hne
  · intro x hx hxcode
    have hne : x ≠ addr := by
      rintro rfl
      simp at hx
    rw [Function.update_of_ne hne] at hx ⊢
    exact h.other x hx hxcode

/-- The breakpoint at `pc` is taken out of memory. -/
theorem Armed.disable {table : Word → Option BreakPoint} {mem : Memory}
    (h : Armed code original table none mem) {pc : Word} {bp : BreakPoint}
    (hbp : table pc = some bp) :
    Armed code original (Function.update table pc (some { bp with enabled := false })) (some pc)
      (Function.update mem bp.addr bp.savedData) := by
  obtain ⟨haddr, hsaved⟩ := h.saved pc bp hbp
  rw [haddr]
  refine ⟨?_, ?_, ?_, ?_⟩
  · intro a bp' hbp'
    by_cases heq : a = pc
    · subst heq
      rw [Function.update_self, Option.some.injEq] at hbp'
      subst hbp'
      exact ⟨rfl, hsaved⟩
    · rw [Function.update_of_ne heq] at hbp'
      exact h.saved a bp' hbp'
  · intro a bp' hbp' hne
    have heq : a ≠ pc := fun heq => hne (heq ▸ rfl)
    rw [Function.update_of_ne heq] at hbp' ⊢
    exact h.enabled a bp' hbp' (by simp)
  · intro a ha
    obtain rfl := Option.some.inj ha
    exact ⟨_, Function.update_self .., rfl, by rw [Function.update_self, hsaved]⟩
  · intro x hx hxcode
    have hne : x ≠ pc := by
      rintro rfl
      simp at hx
    rw [Function.update_of_ne hne] at hx ⊢
    exact h.other x hx hxcode

/-- It is put back. -/
theorem Armed.enable {table : Word → Option BreakPoint} {mem : Memory} {pc : Word}
    (h : Armed code original table (some pc) mem) {bp : BreakPoint} (hbp : table pc = some bp) :
    Armed code original
      (Function.update table pc (some { bp with savedData := mem bp.addr, enabled := true })) none
      (Function.update mem bp.addr int3) := by
  obtain ⟨haddr, -⟩ := h.saved pc bp hbp
  obtain ⟨_, -, -, hmem⟩ := h.disabled pc rfl
  rw [haddr]
  refine ⟨?_, ?_, by simp, ?_⟩
  · intro a bp' hbp'
    by_cases heq : a = pc
    · subst heq
      rw [Function.update_self, Option.some.injEq] at hbp'
      subst hbp'
      exact ⟨rfl, hmem⟩
    · rw [Function.update_of_ne heq] at hbp'
      exact h.saved a bp' hbp'
  · intro a bp' hbp' _
    by_cases heq : a = pc
    · subst heq
      rw [Function.update_self, Option.some.injEq] at hbp'
      subst hbp'
      exact ⟨rfl, Function.update_self ..⟩
    · rw [Function.update_of_ne heq] at hbp' ⊢
      exact h.enabled a bp' hbp' fun hpc => heq (Option.some.inj hpc).symm
  · intro x hx hxcode
    have hne : x ≠ pc := by
      rintro rfl
      simp at hx
    rw [Function.update_of_ne hne] at hx ⊢
    exact h.other x hx hxcode

/-- The tracee writes data, but none of the code. -/
theorem Armed.tracee {table : Word → Option BreakPoint} {stepping : Option Word}
    {mem mem' : Memory} (h : Armed code original table stepping mem)
    (hcode : ∀ a, (table a).isSome → code a) (hkeeps : ∀ x, code x → mem' x = mem x) :
    Armed code original table stepping mem' := by
  refine ⟨h.saved, ?_, ?_, ?_⟩
  · intro a bp hbp hne
    rw [hkeeps a (hcode a (by rw [hbp]; rfl))]
    exact h.enabled a bp hbp hne
  · intro a ha
    obtain ⟨bp, hbp, hdisabled, hmem⟩ := h.disabled a ha
    exact ⟨bp, hbp, hdisabled, by rw [hkeeps a (hcode a (by rw [hbp]; rfl)), hmem]⟩
  · intro x hx hxcode
    rw [hkeeps x hxcode]
    exact h.other x hx hxcode

/-! ## Every reachable state -/

theorem Inv.of_exited {d : Debugger K} {stepping : Option Word} (hexited : d.tracee = .exited)
    (hcode : ∀ a, (d.breakPoints a).isSome → code a) : Inv w code original ⟨d, stepping⟩ := by
  have hdead := Debugger.not_live_of_exited hexited
  exact ⟨fun m sig hlive => absurd hlive (hdead m sig), hcode,
    fun m sig _ hlive => absurd hlive (hdead m sig)⟩

theorem Inv.of_live {d : Debugger K} {stepping : Option Word} {m : Machine K} {sig : SigInfo}
    (hlive : d.Live m sig) (harmed : Armed code original d.breakPoints stepping m.mem)
    (hcode : ∀ a, (d.breakPoints a).isSome → code a)
    (hmapped : ∀ a, (d.breakPoints a).isSome → accessible w m a) :
    Inv w code original ⟨d, stepping⟩ := by
  refine ⟨fun m' sig' hlive' => ?_, hcode, fun m' sig' a hlive' => ?_⟩
  · obtain ⟨rfl, rfl⟩ := Tracee.stopped.inj (hlive.symm.trans hlive')
    exact harmed
  · obtain ⟨rfl, rfl⟩ := Tracee.stopped.inj (hlive.symm.trans hlive')
    exact hmapped a

theorem inv_of_initial {s : State K} (hinit : Initial original s) : Inv w code original s := by
  obtain ⟨m, sig, rfl, hlive, hnone, hstepping⟩ := hinit
  obtain ⟨d, stepping⟩ := s
  obtain rfl : stepping = none := hstepping
  have hnowhere (a : Word) : ¬ (d.breakPoints a).isSome := by
    have htable : d.breakPoints a = none := hnone a
    simp [htable]
  exact .of_live hlive (.of_empty hnone) (fun a ha => absurd ha (hnowhere a))
    fun a ha => absurd ha (hnowhere a)

theorem isSome_of_update {table : Word → Option BreakPoint} {addr a : Word} {bp : BreakPoint}
    (h : (Function.update table addr (some bp) a).isSome) : a = addr ∨ (table a).isSome := by
  by_cases heq : a = addr
  · exact Or.inl heq
  · rw [Function.update_of_ne heq] at h
    exact Or.inr h

theorem Inv.setBreakpoint {d d' : Debugger K} (h : Inv w code original ⟨d, none⟩) {addr : Word}
    (hnew : d.breakPoints addr = none) (hcode : code addr)
    (haccess : ∀ m sig, d.Live m sig → accessible w m addr)
    (hset : d.setBreakpoint w addr = .ok d') : Inv w code original ⟨d', none⟩ := by
  have hgrown : ∀ bp a, (Function.update d.breakPoints addr (some bp) a).isSome → code a := by
    intro bp a ha
    rcases isSome_of_update ha with rfl | hold
    · exact hcode
    · exact h.inCode a hold
  cases htracee : d.tracee with
  | exited =>
      rw [Debugger.setBreakpoint_exited htracee] at hset
      obtain rfl := Except.ok.inj hset
      exact .of_exited htracee (hgrown _)
  | stopped m sig =>
      rw [Debugger.setBreakpoint_live htracee (haccess m sig htracee), Except.ok.injEq] at hset
      subst hset
      refine .of_live rfl ((h.armed m sig htracee).set hnew hcode) (hgrown _) fun a ha => ?_
      rcases isSome_of_update ha with rfl | hold
      · exact haccess m sig htracee
      · exact h.mapped m sig a htracee hold

/-- The word of an entry can be read and written. -/
theorem Inv.entry_accessible {d : Debugger K} {stepping : Option Word}
    (h : Inv w code original ⟨d, stepping⟩) {m : Machine K} {sig : SigInfo}
    (hlive : d.Live m sig) {a : Word} {bp : BreakPoint} (hbp : d.breakPoints a = some bp) :
    accessible w m bp.addr := by
  rw [((h.armed m sig hlive).saved a bp hbp).1]
  exact h.mapped m sig a hlive (Option.isSome_iff_exists.mpr ⟨bp, hbp⟩)

theorem Inv.disable {d : Debugger K} (h : Inv w code original ⟨d, none⟩) {pc : Word}
    {bp : BreakPoint} (hbp : d.breakPoints pc = some bp) :
    Inv w code original ⟨d.disableAt w pc bp, some pc⟩ := by
  have hcode : ∀ a, ((d.disableAt w pc bp).breakPoints a).isSome → code a :=
    fun a ha => h.inCode a ((isSome_replace hbp a).mp ha)
  cases htracee : d.tracee with
  | exited =>
      exact .of_exited (Debugger.disableAt_exited htracee pc bp) hcode
  | stopped m sig =>
      rw [Debugger.disableAt_live htracee (h.entry_accessible htracee hbp)] at hcode ⊢
      exact .of_live rfl ((h.armed m sig htracee).disable hbp) hcode
        fun a ha => h.mapped m sig a htracee ((isSome_replace hbp a).mp ha)

theorem Inv.enable {d d' : Debugger K} {pc : Word} (h : Inv w code original ⟨d, some pc⟩)
    {bp : BreakPoint} (hbp : d.breakPoints pc = some bp) (henable : d.enableAt w pc bp = .ok d') :
    Inv w code original ⟨d', none⟩ := by
  cases htracee : d.tracee with
  | exited =>
      rw [Debugger.enableAt_of_exited htracee] at henable
      obtain rfl := Except.ok.inj henable
      exact .of_exited htracee fun a ha => h.inCode a ((isSome_replace hbp a).mp ha)
  | stopped m sig =>
      rw [Debugger.enableAt_live htracee (h.entry_accessible htracee hbp), Except.ok.injEq]
        at henable
      subst henable
      exact .of_live rfl ((h.armed m sig htracee).enable hbp)
        (fun a ha => h.inCode a ((isSome_replace hbp a).mp ha))
        fun a ha => h.mapped m sig a htracee ((isSome_replace hbp a).mp ha)

theorem Inv.tracee {d : Debugger K} {stepping : Option Word}
    (h : Inv w code original ⟨d, stepping⟩) {t : Tracee K} (hkeeps : KeepsCode w code d t) :
    Inv w code original ⟨{ d with tracee := t }, stepping⟩ := by
  cases ht : t with
  | exited => exact .of_exited rfl h.inCode
  | stopped m' sig' =>
      cases htracee : d.tracee with
      | exited => cases ht.symm.trans (hkeeps.exited htracee)
      | stopped m sig =>
          refine .of_live rfl ?_ h.inCode fun a ha => ?_
          · exact (h.armed m sig htracee).tracee h.inCode (hkeeps.code m sig m' sig' htracee ht)
          · exact hkeeps.mapped m sig m' sig' htracee ht a ha (h.mapped m sig a htracee ha)

theorem Inv.step {s s' : State K} {l : Label} (h : Inv w code original s)
    (hstep : Step w code s l s') : Inv w code original s' := by
  cases hstep with
  | setBreakpoint d d' addr hnew hcode haccess hset => exact h.setBreakpoint hnew hcode haccess hset
  | disable d bp hbp => exact h.disable hbp
  | tracee d stepping t hkeeps => exact h.tracee hkeeps
  | enable d d' pc bp hbp henable => exact h.enable hbp henable

/-- What waiting does to the tracee concerns no code. -/
theorem KeepsCode.waitForSignal {d d' : Debugger K} {t : Tracee K}
    (hkeeps : KeepsCode w code d t)
    (hwait : ({ d with tracee := t } : Debugger K).waitForSignal w = .ok d') :
    KeepsCode w code d d'.tracee ∧ d' = { d with tracee := d'.tracee } := by
  rcases Debugger.waitForSignal_eq_ok hwait with rfl | rfl
  · exact ⟨hkeeps, rfl⟩
  · refine ⟨?_, rfl⟩
    cases t with
    | exited => exact hkeeps
    | stopped m' sig' =>
        refine ⟨?_, ?_, ?_⟩
        · intro hexited
          cases hkeeps.exited hexited
        · intro m sig m₂ sig₂ hlive heq
          obtain ⟨rfl, rfl⟩ := Tracee.stopped.inj heq
          exact hkeeps.code m sig m' sig' hlive rfl
        · intro m sig m₂ sig₂ hlive heq
          obtain ⟨rfl, rfl⟩ := Tracee.stopped.inj heq
          exact hkeeps.mapped m sig m' sig' hlive rfl

/-- The single step of the tracee with the breakpoint at its pc disabled writes
no code. -/
def StepKeepsCode (w : World K) (code : Word → Prop) (d : Debugger K) : Prop :=
  ∀ bp, d.breakPoints (d.getPc w) = some bp →
    KeepsCode w code (d.disableAt w (d.getPc w) bp)
      (singlestep w (d.disableAt w (d.getPc w) bp).tracee)

theorem stepOverBreakpoint_run {d d' : Debugger K} (hkeeps : StepKeepsCode w code d)
    (hstep : d.stepOverBreakpoint w = .ok d') :
    ∃ trace, (shadow w code original).Run ⟨d, none⟩ trace ⟨d', none⟩ := by
  cases hbp : d.breakPoints (d.getPc w) with
  | none =>
      rw [Debugger.stepOverBreakpoint_of_none hbp] at hstep
      obtain rfl := Except.ok.inj hstep
      exact ⟨[], .refl _⟩
  | some bp =>
      rw [Debugger.stepOverBreakpoint_of_some hbp] at hstep
      obtain ⟨d₁, hsingle, henable⟩ := bind_eq_ok.mp hstep
      obtain ⟨hkept, hd₁⟩ := (hkeeps bp hbp).waitForSignal hsingle
      have hdisable : Step w code ⟨d, none⟩ _ _ := .disable d bp hbp
      have htracee := Step.tracee (d.disableAt w (d.getPc w) bp) (some (d.getPc w)) d₁.tracee hkept
      rw [← hd₁] at htracee
      have henabled : Step w code ⟨d₁, some (d.getPc w)⟩ _ ⟨d', none⟩ :=
        .enable d₁ d' _ _ (Debugger.disabled_entry hsingle) henable
      exact ⟨_, .head hdisable (.head htracee (.single henabled))⟩

/-- Between operations the table holds the original bytes under an `int3` each,
and during a step the one disabled breakpoint is out of memory; and
`step_over_breakpoint` leads from such states to such states. -/
theorem breakpoint_shadow {s : State K} (hreach : (shadow w code original).Reachable s) :
    (∀ m sig, s.debugger.Live m sig →
      Armed code original s.debugger.breakPoints s.stepping m.mem) ∧
    (s.stepping = none → StepKeepsCode w code s.debugger →
      ∀ d', s.debugger.stepOverBreakpoint w = .ok d' →
        (shadow w code original).Reachable ⟨d', none⟩) := by
  constructor
  · have hkeep : ∀ (s : State K) l s', Inv w code original s → Step w code s l s' →
        Inv w code original s' := fun _ _ _ h hstep => h.step hstep
    have hinv : Inv w code original s := by
      obtain ⟨start, trace, hinit, hrun⟩ := hreach
      exact hrun.preserves hkeep (inv_of_initial hinit)
    exact hinv.armed
  · intro hidle hkeeps d' hstep
    obtain ⟨start, trace, hinit, hrun⟩ := hreach
    obtain ⟨d, stepping⟩ := s
    obtain rfl : stepping = none := hidle
    obtain ⟨steps, hsteps⟩ := stepOverBreakpoint_run hkeeps hstep
    exact ⟨start, trace ++ steps, hinit, hrun.trans hsteps⟩

/-- Every instruction is one byte long and does nothing. -/
def sampleWorld : World Unit where
  exec m := some (m.setReg .rip (m.pc + 1))
  stepCode _ := trapTrace
  signal _ := none
  mapped _ _ := true
  findLocation _ := .ok none
  openable _ := true
  uninitRegs _ := 0
  uninitSig := ⟨0, 0⟩
  errno := 0

def sampleMemory : Memory := fun _ => 0x90

/-- A process at 100 with the memory `mem`. -/
def sampleMachine (mem : Memory) : Machine Unit := ⟨fun _ => 100, mem, ()⟩

def sampleDebugger (mem : Memory) (breakPoints : Word → Option BreakPoint) : Debugger Unit :=
  ⟨.stopped (sampleMachine mem) ⟨sigtrap, trapTrace⟩, breakPoints, 0⟩

theorem sample_set (mem : Memory) (breakPoints : Word → Option BreakPoint) (addr : Word) :
    (sampleDebugger mem breakPoints).setBreakpoint sampleWorld addr =
      .ok (sampleDebugger (Function.update mem addr int3)
        (Function.update breakPoints addr (some ⟨addr, true, mem addr⟩))) := by
  have hlive : (sampleDebugger mem breakPoints).Live (sampleMachine mem) ⟨sigtrap, trapTrace⟩ :=
    rfl
  exact Debugger.setBreakpoint_live hlive rfl

/-- The table with breakpoints at 100 and 101, and the memory with both of them. -/
def sampleTable : Word → Option BreakPoint :=
  Function.update (Function.update (fun _ => none) 100 (some ⟨100, true, 0x90⟩)) 101
    (some ⟨101, true, 0x90⟩)

def samplePatched : Memory := Function.update (Function.update sampleMemory 100 int3) 101 int3

theorem sample_reachable :
    (shadow sampleWorld (fun _ => True) sampleMemory).Reachable
      ⟨sampleDebugger samplePatched sampleTable, none⟩ := by
  have hstart : (shadow sampleWorld (fun _ => True) sampleMemory).Reachable
      ⟨sampleDebugger sampleMemory fun _ => none, none⟩ :=
    .of_init ⟨_, _, rfl, rfl, fun _ => rfl, rfl⟩
  have hfirst := hstart.step
    (.setBreakpoint _ _ 100 rfl trivial (fun _ _ _ => rfl) (sample_set _ _ 100))
  exact hfirst.step
    (.setBreakpoint _ _ 101 (by decide) trivial (fun _ _ _ => rfl) (sample_set _ _ 101))

/-- While the first of two breakpoints in one word is stepped over, the second
is still there. -/
theorem breakpoint_shadow_sample :
    Armed (fun _ => True) sampleMemory
      (Function.update sampleTable 100 (some ⟨100, false, 0x90⟩)) (some 100)
      (Function.update samplePatched 100 0x90) := by
  have hlive : (sampleDebugger samplePatched sampleTable).Live (sampleMachine samplePatched)
      ⟨sigtrap, trapTrace⟩ := rfl
  have hdisabled := sample_reachable.step (.disable _ ⟨100, true, 0x90⟩ (by decide))
  rw [Debugger.disableAt_live hlive rfl] at hdisabled
  exact (breakpoint_shadow hdisabled).1 (sampleMachine (Function.update samplePatched 100 0x90))
    ⟨sigtrap, trapTrace⟩ rfl

end CsInternal.MiniGdb.ShadowMemory
