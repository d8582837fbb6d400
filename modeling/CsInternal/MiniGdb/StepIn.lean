import Mathlib.Data.Nat.Find
import CsInternal.Library.Loop
import CsInternal.MiniGdb.NativeRun
import CsInternal.MiniGdb.CommandLine

/-!
# Stepping to the next line

The loop of `step_in` single-steps until the location is gone or another one.
Seen from the native run it goes from index to index, over breakpoints as
elsewhere, and leaves at the first index whose location tells it to.
-/

namespace CsInternal.MiniGdb.StepIn

open CsInternal.Library CsInternal.Library.ByteMemory CsInternal.MiniGdb.ShadowMemory
  CsInternal.MiniGdb.NativeRun

section

variable {K : Type} (w : World K) (start : Machine K)

/-- `print_source` at the location, where there is one, at the end of `step_in`. -/
def showLocation (d : Debugger K) : Option (String × Nat) → Except Stop (Debugger K)
  | none => .ok d
  | some loc => do
      Debugger.printSource w loc.1
      .ok d

/-- One round of the loop. -/
def turn (oldLoc : Option (String × Nat)) (d : Debugger K) :
    Except Stop (Debugger K) ⊕ Debugger K :=
  match d.singleStepInstructionWithBreakpointCheck w with
  | .error stop => .inl (.error stop)
  | .ok d =>
      match d.sourceForPc w with
      | .error stop => .inl (.error stop)
      | .ok loc => if loc = none ∨ loc ≠ oldLoc then .inl (showLocation w d loc) else .inr d

/-- `find_location` is the map `lookup`, whose locations have both parts. -/
def Locates (lookup : Word → Option (String × Nat)) : Prop :=
  ∀ a, w.findLocation a = .ok ((lookup a).map fun loc => ⟨some loc.1, some loc.2⟩)

/-- The location of a machine. -/
def location (lookup : Word → Option (String × Nat)) (loadAddr : Word) (σ : Machine K) :
    Option (String × Nat) :=
  lookup (σ.pc - loadAddr)

/-- After `n` instructions the location is gone or another one. -/
def ChangedAt (lookup : Word → Option (String × Nat)) (loadAddr : Word)
    (oldLoc : Option (String × Nat)) (n : Nat) : Prop :=
  ∃ σ, native w start n = some σ ∧
    (location lookup loadAddr σ = none ∨ location lookup loadAddr σ ≠ oldLoc)

/-- Behind `n` the location changes for the first time after `k` instructions. -/
structure FirstChange (lookup : Word → Option (String × Nat)) (loadAddr : Word)
    (oldLoc : Option (String × Nat)) (n k : Nat) : Prop where
  pos : 1 ≤ k
  changed : ChangedAt w start lookup loadAddr oldLoc (n + k)
  first : ∀ j, 1 ≤ j → j < k → ¬ ChangedAt w start lookup loadAddr oldLoc (n + j)

/-- The debugger shows the program, which has not ended, at the index `n`. -/
structure Stands (B breakPoints : Word → Prop) (loadAddr : Word) (n : Nat) (d : Debugger K) :
    Prop where
  position : Shows w start B d ⟨n, breakPoints⟩
  live : ∃ m sig, d.Live m sig
  loadAddr : d.loadAddr = loadAddr

end

section

variable {K : Type} {w : World K} {start : Machine K} {d d' : Debugger K}
  {oldLoc : Option (String × Nat)}

theorem stepInLoop_succ (fuel : Nat) (d : Debugger K) :
    d.stepInLoop w oldLoc (fuel + 1) =
      (turn w oldLoc d).elim id (Debugger.stepInLoop w oldLoc fuel) := by
  rw [Debugger.stepInLoop, turn]
  cases d.singleStepInstructionWithBreakpointCheck w with
  | error stop => rfl
  | ok d₁ =>
      change (d₁.sourceForPc w >>= _) = _
      dsimp only
      cases d₁.sourceForPc w with
      | error stop => rfl
      | ok found =>
          cases found with
          | none => rfl
          | some loc =>
              dsimp only
              by_cases hne : some loc ≠ oldLoc
              · rw [if_pos (Or.inr hne)]
                exact if_pos hne
              · rw [if_neg (by simpa using hne)]
                exact if_neg hne

theorem stepInLoop_eq_run (fuel : Nat) (d : Debugger K) :
    d.stepInLoop w oldLoc fuel = (Loop.run (turn w oldLoc) fuel d).getD (.error .waiting) := by
  induction fuel generalizing d with
  | zero => rfl
  | succ fuel ih =>
      rw [stepInLoop_succ, Loop.run]
      cases turn w oldLoc d with
      | inl r => rfl
      | inr d₁ => exact ih d₁

variable {B breakPoints : Word → Prop} {loadAddr : Word} {n : Nat}

theorem Stands.step (hprog : Debuggable w start B)
    (h : Stands w start B breakPoints loadAddr n d) (hnext : native w start (n + 1) ≠ none) :
    ∃ d₁, d.singleStepInstructionWithBreakpointCheck w = .ok d₁ ∧
      Stands w start B breakPoints loadAddr (n + 1) d₁ := by
  obtain ⟨d₁, hsingle⟩ := singleStep_ok hprog h.position hnext
  have hs := singleStep_shows hprog h.position hsingle
  refine ⟨d₁, hsingle, hs, ?_, (Debugger.singleStep_loadAddr hsingle).trans h.loadAddr⟩
  cases htracee : d₁.tracee with
  | exited => exact absurd (hs.ended htracee) hnext
  | stopped m sig => exact ⟨m, sig, htracee⟩

variable {lookup : Word → Option (String × Nat)}

theorem Stands.sourceForPc (hmap : Locates w lookup)
    (h : Stands w start B breakPoints loadAddr n d) {σ : Machine K}
    (hσ : native w start n = some σ) (hload : loadAddr ≤ σ.pc) :
    d.sourceForPc w = .ok (location lookup loadAddr σ) := by
  obtain ⟨m, sig, hlive⟩ := h.live
  obtain ⟨σ', hσ', hoverlay⟩ := h.position.live m sig hlive
  obtain rfl := Option.some.inj (hσ.symm.trans hσ')
  have hpc : d.getPc w = σ.pc := (Debugger.getPc_live hlive).trans hoverlay.pc_eq
  rw [Debugger.sourceForPc, Debugger.offsetLoadAddress, hpc, h.loadAddr, checkedSub_of_le hload]
  refine bind_eq_ok.mpr ⟨_, rfl, ?_⟩
  rw [hmap, location]
  cases lookup (σ.pc - loadAddr) with
  | none => rfl
  | some loc => rfl

/-- A round goes on by one native instruction, and looks at the location there. -/
theorem Stands.turn_eq (hprog : Debuggable w start B) (hmap : Locates w lookup)
    (h : Stands w start B breakPoints loadAddr n d) {τ : Machine K}
    (hτ : native w start (n + 1) = some τ) (hload : loadAddr ≤ τ.pc) :
    ∃ d₁, Stands w start B breakPoints loadAddr (n + 1) d₁ ∧
      turn w oldLoc d =
        if location lookup loadAddr τ = none ∨ location lookup loadAddr τ ≠ oldLoc then
          .inl (showLocation w d₁ (location lookup loadAddr τ))
        else .inr d₁ := by
  obtain ⟨d₁, hsingle, h₁⟩ := h.step hprog (by rw [hτ]; simp)
  refine ⟨d₁, h₁, ?_⟩
  rw [turn, hsingle]
  simp only [h₁.sourceForPc hmap hτ hload]

/-! ## The whole loop -/

/-- The rounds up to the first change. -/
theorem exits_at_change (hprog : Debuggable w start B) (hmap : Locates w lookup)
    (h : Stands w start B breakPoints loadAddr n d)
    (hload : ∀ i σ, n ≤ i → native w start i = some σ → loadAddr ≤ σ.pc) {j : Nat}
    {σ : Machine K} (hσ : native w start (n + (j + 1)) = some σ)
    (hchanged : location lookup loadAddr σ = none ∨ location lookup loadAddr σ ≠ oldLoc)
    (hfirst : ∀ i, i < j → ¬ ChangedAt w start lookup loadAddr oldLoc (n + (i + 1))) :
    ∃ d', Stands w start B breakPoints loadAddr (n + (j + 1)) d' ∧
      Loop.Exits (turn w oldLoc) d j (showLocation w d' (location lookup loadAddr σ)) := by
  induction j generalizing n d with
  | zero =>
      obtain ⟨d₁, h₁, hturn⟩ := h.turn_eq hprog hmap hσ (hload _ σ (Nat.le_add_right n _) hσ)
      rw [if_pos hchanged] at hturn
      exact ⟨d₁, h₁, .leave hturn⟩
  | succ j ih =>
      have hsome : native w start (n + 1) ≠ none := fun hnone => by
        have hlater := native_none_of_le (k := n + (j + 1 + 1)) hnone (by omega)
        rw [hσ] at hlater
        cases hlater
      obtain ⟨τ, hτ⟩ := Option.ne_none_iff_exists'.mp hsome
      obtain ⟨d₁, h₁, hturn⟩ := h.turn_eq hprog hmap hτ (hload _ τ (Nat.le_add_right n _) hτ)
      rw [if_neg fun hearly => hfirst 0 (Nat.succ_pos j) ⟨τ, hτ, hearly⟩] at hturn
      have hshift : ∀ i, n + 1 + i = n + (i + 1) := fun i => by omega
      rw [← hshift] at hσ
      obtain ⟨d', h', hexits⟩ := ih h₁ (fun i σ hi => hload i σ (by omega)) hσ fun i hi => by
        rw [hshift]
        exact hfirst (i + 1) (by omega)
      rw [hshift] at h'
      exact ⟨d', h', .again hturn hexits⟩

/-- Without a change the loop goes on for as long as the program does. -/
theorem not_exits_unchanged (hprog : Debuggable w start B) (hmap : Locates w lookup)
    (h : Stands w start B breakPoints loadAddr n d)
    (hload : ∀ i σ, n ≤ i → native w start i = some σ → loadAddr ≤ σ.pc)
    (hgoes : ∀ i, native w start (n + (i + 1)) ≠ none)
    (hsame : ∀ i, ¬ ChangedAt w start lookup loadAddr oldLoc (n + (i + 1))) (j : Nat)
    (r : Except Stop (Debugger K)) : ¬ Loop.Exits (turn w oldLoc) d j r := by
  have hkeep : ∀ d, (∃ i, Stands w start B breakPoints loadAddr (n + i) d) →
      ∃ d₁, turn w oldLoc d = .inr d₁ ∧
        ∃ i, Stands w start B breakPoints loadAddr (n + i) d₁ := by
    rintro d ⟨i, hi⟩
    obtain ⟨τ, hτ⟩ := Option.ne_none_iff_exists'.mp (hgoes i)
    obtain ⟨d₁, h₁, hturn⟩ := hi.turn_eq hprog hmap hτ (hload _ τ (Nat.le_add_right n _) hτ)
    rw [if_neg fun hearly => hsame i ⟨τ, hτ, hearly⟩] at hturn
    exact ⟨d₁, hturn, i + 1, h₁⟩
  exact Loop.not_exits hkeep ⟨0, h⟩ j r

theorem showLocation_ne_waiting (d : Debugger K) (loc : Option (String × Nat)) :
    showLocation w d loc ≠ .error .waiting := by
  cases loc with
  | none => simp [showLocation]
  | some loc =>
      refine bind_ne_waiting ?_ fun _ _ => by simp
      rw [Debugger.printSource]
      split <;> simp

theorem exists_firstChange {k : Nat} (hpos : 1 ≤ k)
    (hchanged : ChangedAt w start lookup loadAddr oldLoc (n + k)) :
    ∃ k, FirstChange w start lookup loadAddr oldLoc n k := by
  classical
  have hex : ∃ k, 1 ≤ k ∧ ChangedAt w start lookup loadAddr oldLoc (n + k) := ⟨k, hpos, hchanged⟩
  obtain ⟨hfindPos, hfind⟩ := Nat.find_spec hex
  exact ⟨Nat.find hex, hfindPos, hfind, fun j hj hlt hearly => Nat.find_min hex hlt ⟨hj, hearly⟩⟩

/-- `step_in` comes back after the first change, and with fewer rounds it does not. -/
theorem stepIn_firstChange (hprog : Debuggable w start B) (hmap : Locates w lookup)
    (h : Stands w start B breakPoints loadAddr n d)
    (hload : ∀ i σ, n ≤ i → native w start i = some σ → loadAddr ≤ σ.pc) {σ : Machine K}
    (hσ : native w start n = some σ) {k : Nat}
    (hfirst : FirstChange w start lookup loadAddr (location lookup loadAddr σ) n k) :
    ∃ d' σ', Stands w start B breakPoints loadAddr (n + k) d' ∧
      native w start (n + k) = some σ' ∧
      ∀ fuel, d.stepIn w fuel =
        if k ≤ fuel then showLocation w d' (location lookup loadAddr σ') else .error .waiting := by
  obtain ⟨hpos, ⟨σ', hσ', hchanged⟩, hearlier⟩ := hfirst
  obtain ⟨j, rfl⟩ : ∃ j, k = j + 1 := ⟨k - 1, by omega⟩
  obtain ⟨d', h', hexits⟩ := exits_at_change hprog hmap h hload hσ' hchanged
    fun i hi => hearlier (i + 1) (by omega) (by omega)
  refine ⟨d', σ', h', hσ', fun fuel => ?_⟩
  rw [Debugger.stepIn, h.sourceForPc hmap hσ (hload n σ (Nat.le_refl n) hσ)]
  change d.stepInLoop w _ fuel = _
  rw [stepInLoop_eq_run, hexits.run_eq]
  by_cases hle : j + 1 ≤ fuel
  · rw [if_pos (Nat.lt_of_succ_le hle), if_pos hle]
    rfl
  · rw [if_neg fun hlt => hle (Nat.succ_le_of_lt hlt), if_neg hle]
    rfl

/-- Without a change it does not come back. -/
theorem stepIn_unchanged (hprog : Debuggable w start B) (hmap : Locates w lookup)
    (h : Stands w start B breakPoints loadAddr n d)
    (hload : ∀ i σ, n ≤ i → native w start i = some σ → loadAddr ≤ σ.pc) {σ : Machine K}
    (hσ : native w start n = some σ) (hgoes : ∀ i, native w start (n + (i + 1)) ≠ none)
    (hsame : ∀ i, ¬ ChangedAt w start lookup loadAddr (location lookup loadAddr σ) (n + (i + 1)))
    (fuel : Nat) : d.stepIn w fuel = .error .waiting := by
  rw [Debugger.stepIn, h.sourceForPc hmap hσ (hload n σ (Nat.le_refl n) hσ)]
  change d.stepInLoop w _ fuel = _
  rw [stepInLoop_eq_run]
  cases hrun : Loop.run (turn w (location lookup loadAddr σ)) fuel d with
  | none => rfl
  | some r =>
      obtain ⟨j, -, hexits⟩ := Loop.run_eq_some_iff.mp hrun
      exact absurd hexits (not_exits_unchanged hprog hmap h hload hgoes hsame j r)

/--
`step_in` stops at the first change of the source line: it comes back if and
only if there is one, and then the tracee is the native machine of that index
under the same breakpoints, all of them armed.  What is left is to print the
line there, which ends in a panic for a file that cannot be opened.
-/
theorem stepIn_spec (hprog : Debuggable w start B) {p : Position} (hs : Shows w start B d p)
    {m : Machine K} {sig : SigInfo} (hlive : d.Live m sig) (hmap : Locates w lookup)
    {σ : Machine K} (hσ : native w start p.index = some σ)
    (hload : ∀ i τ, p.index ≤ i → native w start i = some τ → d.loadAddr ≤ τ.pc)
    -- no instruction that is stepped ends the program
    (hgoes : ∀ j, (∀ i, 1 ≤ i → i ≤ j →
        ¬ ChangedAt w start lookup d.loadAddr (location lookup d.loadAddr σ) (p.index + i)) →
      native w start (p.index + (j + 1)) ≠ none) :
    ((∃ fuel, d.stepIn w fuel ≠ .error .waiting) ↔ ∃ k, 1 ≤ k ∧
      ChangedAt w start lookup d.loadAddr (location lookup d.loadAddr σ) (p.index + k)) ∧
    ∀ k, FirstChange w start lookup d.loadAddr (location lookup d.loadAddr σ) p.index k →
      ∃ d' m' sig' σ', native w start (p.index + k) = some σ' ∧ d'.Live m' sig' ∧
        Overlay d'.breakPoints none σ' m' ∧ d'.breakPoints = d.breakPoints ∧
        ∀ fuel, d.stepIn w fuel =
          if k ≤ fuel then showLocation w d' (location lookup d.loadAddr σ')
          else .error .waiting := by
  have h : Stands w start B p.breakPoints d.loadAddr p.index d := ⟨hs, ⟨m, sig, hlive⟩, rfl⟩
  refine ⟨⟨?_, ?_⟩, fun k hfirst => ?_⟩
  · rintro ⟨fuel, hreturns⟩
    by_contra hnever
    have hsame : ∀ i, 1 ≤ i →
        ¬ ChangedAt w start lookup d.loadAddr (location lookup d.loadAddr σ) (p.index + i) :=
      fun i hpos hchanged => hnever ⟨i, hpos, hchanged⟩
    exact hreturns (stepIn_unchanged hprog hmap h hload hσ
      (fun j => hgoes j fun i hpos _ => hsame i hpos) (fun i => hsame (i + 1) (by omega)) fuel)
  · rintro ⟨k, hpos, hchanged⟩
    obtain ⟨k, hfirst⟩ := exists_firstChange hpos hchanged
    obtain ⟨d', σ', -, -, hstep⟩ := stepIn_firstChange hprog hmap h hload hσ hfirst
    refine ⟨k, ?_⟩
    rw [hstep, if_pos (Nat.le_refl k)]
    exact showLocation_ne_waiting d' _
  · obtain ⟨d', σ', h', hσ', hstep⟩ := stepIn_firstChange hprog hmap h hload hσ hfirst
    obtain ⟨m', sig', hlive'⟩ := h'.live
    obtain ⟨τ, hτ, hoverlay⟩ := h'.position.live m' sig' hlive'
    obtain rfl := Option.some.inj (hσ'.symm.trans hτ)
    have htable := hs.table_eq hprog h'.position hlive hlive'
    exact ⟨d', m', sig', σ', hσ', hlive', hoverlay, htable, hstep⟩

end

/-- The addresses below 102 are on one line, and all others on the next. -/
def linesLookup : Word → Option (String × Nat) := fun a => some ("main.c", if a < 102 then 1 else 2)

def linesWorld : World Unit :=
  { sampleWorld with
    findLocation := fun a => .ok ((linesLookup a).map fun loc => ⟨some loc.1, some loc.2⟩) }

/-- At 100, with a breakpoint on the second instruction of the line. -/
def linesDebugger : Debugger Unit :=
  sampleDebugger (Function.update sampleMemory 101 int3)
    (Function.update (fun _ => none) 101 (some ⟨101, true, 0x90⟩))

theorem lines_native (start : Machine Unit) (n : Nat) :
    native linesWorld start n = native sampleWorld start n := by
  induction n with
  | zero => rfl
  | succ n ih =>
      rw [native, native, ih]
      rfl

theorem lines_debuggable (B : Word → Prop) :
    Debuggable linesWorld (sampleMachine sampleMemory) B where
  noInt3 n σ hσ := (sample_debuggable B).noInt3 n σ (lines_native _ n ▸ hσ)
  ignores _ σ _ := .of_jumps (fun regs => regs .rip + 1) (fun _ => rfl) B σ
  access _ _ _ _ _ := rfl
  noSignal _ _ _ _ _ := rfl
  traced _ _ _ _ _ := rfl

theorem lines_shows :
    Shows linesWorld (sampleMachine sampleMemory) (fun _ => True)
      linesDebugger ⟨0, fun a => a = 101 ∨ False⟩ := by
  have hs : Shows linesWorld (sampleMachine sampleMemory) (fun _ => True)
      (sampleDebugger sampleMemory fun _ => none) ⟨0, fun _ => False⟩ :=
    .of_overlay rfl (by simp [sampleDebugger]) (by simp) rfl
      ⟨rfl, rfl, .of_empty fun _ => rfl⟩
  have hlive : (sampleDebugger sampleMemory fun _ => none).Live (sampleMachine sampleMemory)
      ⟨sigtrap, trapTrace⟩ := rfl
  have hmapped : accessible linesWorld (sampleMachine sampleMemory) 101 := rfl
  exact setBreakpoint_shows (lines_debuggable _) hs trivial rfl
    (Debugger.setBreakpoint_live hlive hmapped)

theorem lines_goes (n : Nat) :
    native linesWorld (sampleMachine sampleMemory) n ≠ none := by
  induction n with
  | zero => simp [native]
  | succ n ih =>
      obtain ⟨σ, hσ⟩ := Option.ne_none_iff_exists'.mp ih
      rw [native_succ hσ]
      simp [linesWorld, sampleWorld]

/-- `step_in` goes over the breakpoint to the next line. -/
theorem stepIn_spec_lines :
    ∃ d', linesDebugger.stepIn linesWorld 2 = .ok d' ∧ d'.getPc linesWorld = 102 ∧
      d'.breakPoints = linesDebugger.breakPoints := by
  have hlive : linesDebugger.Live (sampleMachine (Function.update sampleMemory 101 int3))
      ⟨sigtrap, trapTrace⟩ := rfl
  have hstays : ¬ ChangedAt linesWorld (sampleMachine sampleMemory) linesLookup 0
      (some ("main.c", 1)) 1 := by
    rintro ⟨σ, hσ, hchanged⟩
    obtain rfl := Option.some.inj hσ
    exact absurd hchanged (by decide)
  have hfirst : FirstChange linesWorld (sampleMachine sampleMemory) linesLookup 0
      (some ("main.c", 1)) 0 2 := by
    refine ⟨by decide, ⟨_, rfl, by decide⟩, fun j hpos hlt => ?_⟩
    obtain rfl : j = 1 := by omega
    exact hstays
  obtain ⟨d', m', sig', σ', hσ', hlive', hoverlay, htable, hstep⟩ :=
    (stepIn_spec (lines_debuggable _) lines_shows hlive (fun _ => rfl) rfl
      (fun _ _ _ _ => Nat.zero_le _) fun j _ => lines_goes _).2 2 hfirst
  refine ⟨d', (hstep 2).trans ?_, ?_, htable⟩
  · rw [if_pos (Nat.le_refl 2)]
    obtain rfl := Option.some.inj hσ'
    rfl
  · rw [Debugger.getPc_live hlive', hoverlay.pc_eq]
    obtain rfl := Option.some.inj hσ'
    rfl

end CsInternal.MiniGdb.StepIn
