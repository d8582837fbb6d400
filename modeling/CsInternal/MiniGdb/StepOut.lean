import CsInternal.MiniGdb.NativeRun
import CsInternal.MiniGdb.Commands
import CsInternal.MiniGdb.SourceWindow

/-!
# Stepping out of a frame

`step_out` sets a breakpoint at the return address of the current frame and
continues.  The breakpoint is an entry like those of the user, which nothing
takes back; and it is hit by the first activation that comes to the address,
which need not be the caller's.  No command leads to `step_out` so far.
-/

namespace CsInternal.MiniGdb.StepOut

open CsInternal.Library CsInternal.Library.ByteMemory CsInternal.MiniGdb.NativeRun

section

variable {K : Type} (w : World K)

/-- The word above the saved frame pointer. -/
def returnAddr (d : Debugger K) : Word := d.readMemory w (getRegs w d.tracee .rbp + 8)

/-- `step_out` -/
def stepOut (fuel : Nat) (d : Debugger K) : Except Stop (Debugger K) := do
  let fp := getRegs w d.tracee .rbp
  let slot ← SourceWindow.checkedAdd fp 8
  let returnAddr := d.readMemory w slot
  let d ← d.setBreakpoint w returnAddr
  d.continueExecution w fuel

/-- What `step_out` is for, from `m` to the stop at `m'`. -/
structure LeavesFrame (returnAddr : Word) (d : Debugger K) (m : Machine K) (d' : Debugger K)
    (m' : Machine K) : Prop where
  returned : m'.pc = returnAddr → m.regs .rbp + 8 < m'.regs .rsp
  stopped : m'.pc ≠ returnAddr → (d.breakPoints m'.pc).isSome
  table : d'.breakPoints = d.breakPoints

/-- The debugger with the breakpoint of `step_out`. -/
def planted (d : Debugger K) : Debugger K :=
  { d with tracee := plant w d.tracee (returnAddr w d) }.insert (returnAddr w d)
    ⟨returnAddr w d, true, savedByte w d.tracee (returnAddr w d)⟩

/-- The user's table does not notice the breakpoint: an enabled entry at the
return address has saved the byte that is read there now, and the entry that is
stepped over first reads back the byte it has saved. -/
structure TableKept (d : Debugger K) : Prop where
  entry : d.getPc w ≠ returnAddr w d → d.breakPoints (returnAddr w d) =
    some ⟨returnAddr w d, true, savedByte w d.tracee (returnAddr w d)⟩
  passed : ∀ bp, (planted w d).breakPoints (d.getPc w) = some bp →
    d.breakPoints (d.getPc w) = some { bp with
      savedData := savedByte w (stepped w (planted w d)).tracee bp.addr, enabled := true }

/-- A signal or an `int3` stops the process before its next instruction. -/
def StopsHere (m : Machine K) : Prop := (w.signal m).isSome ∨ m.mem m.pc = int3

/-- The process that goes on from the first machine stops first at the second. -/
inductive FirstStop : Machine K → Machine K → Prop where
  | here (m : Machine K) : StopsHere w m → FirstStop m m
  | later (m next μ : Machine K) : ¬ StopsHere w m → w.exec m = some next → FirstStop next μ →
      FirstStop m μ

/-- Where the debugger shows the stop at `μ`. -/
def stopPc (μ : Machine K) : Word :=
  match w.signal μ with
  | some (sig, _) => if Rewinds sig then μ.pc - 1 else μ.pc
  | none => μ.pc

/-- A stop at the return address has left the frame of `m`, and any other one is
at a breakpoint of the user. -/
structure RightStop (d : Debugger K) (m μ : Machine K) : Prop where
  returned : stopPc w μ = returnAddr w d → m.regs .rbp + 8 < μ.regs .rsp
  stopped : stopPc w μ ≠ returnAddr w d → (d.breakPoints (stopPc w μ)).isSome

/-- Where the process stops first with the breakpoint planted, once the entry at
the program counter has been stepped over. -/
def StopsRight (d : Debugger K) (m : Machine K) : Prop :=
  ∀ d₁ m₁ sig₁ μ, (planted w d).stepOverBreakpoint w = .ok d₁ → d₁.Live m₁ sig₁ →
    FirstStop w m₁ μ → RightStop w d m μ

/-- The user has a breakpoint at the return address, and the byte under it is an
`int3` of the program. -/
def AlreadyPlanted (d : Debugger K) (returnAddr : Word) : Prop :=
  d.breakPoints returnAddr = some ⟨returnAddr, true, int3⟩

end

section

variable {K : Type} {w : World K} {d d' : Debugger K} {m m' : Machine K} {sig sig' : SigInfo}
  {fuel : Nat}

theorem stepOut_eq_ok (h : stepOut w fuel d = .ok d') :
    (planted w d).continueExecution w fuel = .ok d' := by
  obtain ⟨slot, hslot, h⟩ := bind_eq_ok.mp h
  obtain rfl := SourceWindow.checkedAdd_eq_ok hslot
  obtain ⟨d₁, hset, hcont⟩ := bind_eq_ok.mp h
  rw [Debugger.setBreakpoint_eq, Except.ok.injEq] at hset
  subst hset
  exact hcont

/-- The byte that is read is a matter of memory alone. -/
theorem savedByte_waitForSignal (hwait : d.waitForSignal w = .ok d') (a : Word) :
    savedByte w d'.tracee a = savedByte w d.tracee a := by
  rcases Debugger.waitForSignal_eq_ok hwait with rfl | rfl
  · rfl
  · rw [Debugger.setPc]
    cases d.tracee with
    | exited => rfl
    | stopped m sig => rfl

/-- The table behind a step over a breakpoint. -/
theorem stepOverBreakpoint_updates {bp : BreakPoint} (hbp : d.breakPoints (d.getPc w) = some bp)
    (hover : d.stepOverBreakpoint w = .ok d') :
    d'.breakPoints = Function.update d.breakPoints (d.getPc w) (some { bp with
      savedData := savedByte w (stepped w d).tracee bp.addr, enabled := true }) := by
  rw [Debugger.stepOverBreakpoint_of_some hbp] at hover
  obtain ⟨d₁, hsingle, henable⟩ := bind_eq_ok.mp hover
  rw [Debugger.enableAt_eq, Except.ok.injEq] at henable
  subst henable
  have htable : d₁.breakPoints = Function.update d.breakPoints (d.getPc w)
      (some { bp with enabled := false }) := Debugger.singleStepInstruction_breakPoints hsingle
  have hbyte : savedByte w d₁.tracee bp.addr = savedByte w (stepped w d).tracee bp.addr := by
    rw [stepped, hbp]
    exact savedByte_waitForSignal hsingle bp.addr
  change Function.update d₁.breakPoints _ _ = _
  rw [htable, Function.update_idem, ← hbyte]

theorem planted_of_ne {a : Word} (hne : a ≠ returnAddr w d) :
    (planted w d).breakPoints a = d.breakPoints a := Function.update_of_ne hne ..

theorem planted_getPc : (planted w d).getPc w = d.getPc w := by
  change getRegs w (plant w d.tracee (returnAddr w d)) .rip = getRegs w d.tracee .rip
  cases d.tracee <;> rfl

theorem planted_table : (planted w d).breakPoints = Function.update d.breakPoints
    (returnAddr w d) (some ⟨returnAddr w d, true, savedByte w d.tracee (returnAddr w d)⟩) := rfl

/-- Whatever the program does, the table is the user's again exactly if it is kept. -/
theorem stepOut_table_iff (hout : stepOut w fuel d = .ok d') :
    d'.breakPoints = d.breakPoints ↔ TableKept w d := by
  obtain ⟨d₁, t, hover, -, hwait⟩ := Debugger.continueExecution_eq_ok (stepOut_eq_ok hout)
  rw [Debugger.waitForSignal_breakPoints hwait]
  change d₁.breakPoints = d.breakPoints ↔ _
  cases hbp : (planted w d).breakPoints (d.getPc w) with
  | none =>
      have hne : d.getPc w ≠ returnAddr w d := by
        intro heq
        rw [heq, planted, Debugger.insert_self] at hbp
        cases hbp
      rw [← planted_getPc] at hbp
      rw [Debugger.stepOverBreakpoint_of_none hbp] at hover
      obtain rfl := Except.ok.inj hover
      rw [planted_table, Function.update_eq_self_iff, eq_comm]
      rw [planted_getPc] at hbp
      exact ⟨fun h => ⟨fun _ => h, by simp [hbp]⟩, fun h => h.entry hne⟩
  | some bp =>
      rw [← planted_getPc] at hbp
      have htable := stepOverBreakpoint_updates hbp hover
      rw [planted_getPc] at hbp htable
      by_cases hpc : d.getPc w = returnAddr w d
      · -- the planted entry itself is stepped over
        rw [htable, planted_table, hpc, Function.update_idem, Function.update_eq_self_iff, eq_comm]
        rw [hpc] at hbp
        constructor
        · refine fun h => ⟨fun hne => absurd hpc hne, fun bp' hbp' => ?_⟩
          rw [hpc] at hbp' ⊢
          obtain rfl := Option.some.inj (hbp.symm.trans hbp')
          exact h
        · intro h
          have hkept := h.passed bp (hpc ▸ hbp)
          rwa [hpc] at hkept
      · have huser : d.breakPoints (d.getPc w) = some bp := (planted_of_ne hpc).symm.trans hbp
        rw [htable, planted_table]
        constructor
        · intro h
          refine ⟨fun _ => ?_, fun bp' hbp' => ?_⟩
          · rw [← h, Function.update_of_ne (Ne.symm hpc), Function.update_self]
          · obtain rfl := Option.some.inj (hbp.symm.trans hbp')
            have hhere := congrFun h (d.getPc w)
            rw [Function.update_self] at hhere
            exact hhere.symm
        · intro h
          rw [← h.passed bp hbp, ← h.entry hpc, Function.update_eq_self, Function.update_eq_self]

/-! ## The stop -/

/-- What `waitpid` reports of the stop at `μ`. -/
def reportAt (w : World K) (μ : Machine K) : Tracee K :=
  match w.signal μ with
  | some (sig, kernel) => .stopped { μ with kernel } sig
  | none => trapped μ

theorem runToStop_firstStop (hrun : runToStop w fuel m = some (.stopped m' sig')) :
    ∃ μ, FirstStop w m μ ∧ reportAt w μ = .stopped m' sig' := by
  induction fuel generalizing m with
  | zero => cases hrun
  | succ fuel ih =>
      rw [runToStop] at hrun
      cases hsignal : w.signal m with
      | some signal =>
          simp only [hsignal, Option.some.injEq] at hrun
          refine ⟨m, .here m (Or.inl (by simp [hsignal])), ?_⟩
          simp only [reportAt, hsignal]
          exact hrun
      | none =>
          simp only [hsignal] at hrun
          split at hrun
          · rename_i hbyte
            refine ⟨m, .here m (Or.inr hbyte), ?_⟩
            simp only [reportAt, hsignal]
            exact Option.some.inj hrun
          · rename_i hbyte
            cases hexec : w.exec m with
            | none =>
                simp only [hexec] at hrun
                cases hrun
            | some next =>
                simp only [hexec] at hrun
                obtain ⟨μ, hstop, hreport⟩ := ih hrun
                have hgoes : ¬ StopsHere w m := by
                  rintro (hsome | hint3)
                  · simp [hsignal] at hsome
                  · exact hbyte hint3
                exact ⟨μ, .later m next μ hgoes hexec hstop, hreport⟩

theorem FirstStop.unique {μ ν : Machine K} (h : FirstStop w m μ) (h' : FirstStop w m ν) :
    μ = ν := by
  induction h with
  | here m hstops =>
      cases h' with
      | here => rfl
      | later _ _ _ hgoes => exact absurd hstops hgoes
  | later m next μ hgoes hexec _ ih =>
      cases h' with
      | here _ hstops => exact absurd hstops hgoes
      | later _ next' _ _ hexec' hrest =>
          obtain rfl := Option.some.inj (hexec.symm.trans hexec')
          exact ih hrest

/-- What the debugger shows of the stop at `μ`. -/
theorem shown_at {μ : Machine K} (hreport : d.tracee = reportAt w μ)
    (hwait : d.waitForSignal w = .ok d') (hlive' : d'.Live m' sig') :
    m'.pc = stopPc w μ ∧ m'.regs .rsp = μ.regs .rsp := by
  cases hsignal : w.signal μ with
  | none =>
      have htrapped : d.tracee = trapped μ := by simp only [hreport, reportAt, hsignal]
      have hd' := waitForSignal_trapped htrapped hwait
      rw [Debugger.Live, hd'] at hlive'
      obtain ⟨rfl, _⟩ := Tracee.stopped.inj hlive'
      exact ⟨by simp only [stopPc, hsignal], rfl⟩
  | some signal =>
      obtain ⟨sig, kernel⟩ := signal
      have hlive : d.Live { μ with kernel } sig := by
        rw [Debugger.Live, hreport]
        simp only [reportAt, hsignal]
      obtain rfl := Debugger.live_unique hlive' (Debugger.waitForSignal_shown hlive hwait)
      simp only [stopPc, hsignal]
      split
      · exact ⟨Machine.setReg_pc _ _, by simp [Machine.setReg]⟩
      · exact ⟨rfl, rfl⟩

/-- The stop of `step_out` is the right one exactly if the first stop is. -/
theorem stepOut_stop_iff (hout : stepOut w fuel d = .ok d') (hlive' : d'.Live m' sig') :
    ((m'.pc = returnAddr w d → m.regs .rbp + 8 < m'.regs .rsp) ∧
      (m'.pc ≠ returnAddr w d → (d.breakPoints m'.pc).isSome)) ↔ StopsRight w d m := by
  obtain ⟨d₁, t, hover, hcont, hwait⟩ := Debugger.continueExecution_eq_ok (stepOut_eq_ok hout)
  -- the tracee is there all along
  obtain ⟨m₂, sig₂, rfl⟩ : ∃ m₂ sig₂, t = .stopped m₂ sig₂ := by
    cases t with
    | stopped m₂ sig₂ => exact ⟨m₂, sig₂, rfl⟩
    | exited =>
        have hgone := Debugger.waitForSignal_exited rfl hwait
        exact absurd hlive' (Debugger.not_live_of_exited hgone m' sig')
  obtain ⟨m₁, sig₁, hlive₁⟩ : ∃ m₁ sig₁, d₁.Live m₁ sig₁ := by
    cases htracee : d₁.tracee with
    | stopped m₁ sig₁ => exact ⟨m₁, sig₁, htracee⟩
    | exited =>
        rw [htracee] at hcont
        cases hcont
  rw [hlive₁] at hcont
  obtain ⟨μ, hstop, hreport⟩ := runToStop_firstStop hcont
  obtain ⟨hpc, hrsp⟩ := shown_at hreport.symm hwait hlive'
  rw [hpc, hrsp]
  constructor
  · rintro ⟨hreturned, hstopped⟩ d₂ m₃ sig₃ ν hover' hlive₃ hstop'
    obtain rfl := Except.ok.inj (hover.symm.trans hover')
    obtain rfl := Debugger.live_unique hlive₁ hlive₃
    obtain rfl := hstop.unique hstop'
    exact ⟨hreturned, hstopped⟩
  · intro hright
    obtain ⟨hreturned, hstopped⟩ := hright d₁ m₁ sig₁ μ hover hlive₁ hstop
    exact ⟨hreturned, hstopped⟩

/-- What `step_out` does for every program and every table. -/
theorem leavesFrame_iff (hout : stepOut w fuel d = .ok d') (hlive' : d'.Live m' sig') :
    LeavesFrame (returnAddr w d) d m d' m' ↔ TableKept w d ∧ StopsRight w d m := by
  rw [← stepOut_table_iff hout, ← stepOut_stop_iff hout hlive']
  constructor
  · rintro ⟨hreturned, hstopped, htable⟩
    exact ⟨htable, hreturned, hstopped⟩
  · rintro ⟨htable, hreturned, hstopped⟩
    exact ⟨hreturned, hstopped, htable⟩

variable {start : Machine K} {B : Word → Prop} {p : Position}

/-- Where the byte already is an `int3`, only the table changes. -/
theorem plant_over_int3 {a : Word} (haccess : accessible w m a) (hbyte : m.mem a = int3) :
    plant w (.stopped m sig) a = .stopped m sig := by
  rw [plant_stopped haccess, ← hbyte, Function.update_eq_self]

theorem planted_eq_self (hlive : d.Live m sig) (haccess : accessible w m (returnAddr w d))
    (hbyte : m.mem (returnAddr w d) = int3) (hplanted : AlreadyPlanted d (returnAddr w d)) :
    planted w d = d := by
  rw [planted]
  rw [Debugger.Live] at hlive
  generalize returnAddr w d = a at haccess hbyte hplanted ⊢
  rw [hlive, plant_over_int3 haccess hbyte, savedByte_stopped haccess, hbyte, ← hlive,
    Debugger.insert, ← hplanted, Function.update_eq_self]

/-- A single step over an entry that has saved an `int3` runs into it. -/
theorem stepped_stuck (hlive : d.Live m sig) (haccess : accessible w m m.pc)
    (hsignal : w.signal m = none) (hbyte : m.mem m.pc = int3)
    (hbp : d.breakPoints m.pc = some ⟨m.pc, true, int3⟩) :
    (stepped w d).tracee = trapped m := by
  have hdisable : d.disableAt w m.pc ⟨m.pc, true, int3⟩ = _ :=
    Debugger.disableAt_live hlive haccess m.pc
  have hsame : Function.update m.mem m.pc int3 = m.mem := by rw [← hbyte, Function.update_eq_self]
  rw [stepped, Debugger.getPc_live hlive, hbp]
  simp only [hdisable, hsame]
  change singlestep w (.stopped m sig) = trapped m
  simp only [singlestep, hsignal, if_pos hbyte]

theorem TableKept.user_entry (h : TableKept w d) : (d.breakPoints (returnAddr w d)).isSome := by
  by_cases hpc : d.getPc w = returnAddr w d
  · have hentry := h.passed _ (by rw [hpc, planted, Debugger.insert_self])
    rw [← hpc, hentry]
    rfl
  · rw [h.entry hpc]
    rfl

/-- Over a program that breakpoints leave alone the user's entry has saved an `int3`. -/
theorem TableKept.alreadyPlanted (h : TableKept w d) (hprog : Debuggable w start B)
    (hs : Shows w start B d p) (hlive : d.Live m sig) : AlreadyPlanted d (returnAddr w d) := by
  obtain ⟨σ, hσ, hoverlay⟩ := hs.live m sig hlive
  have hB := hs.entry_inB _ h.user_entry
  have haccess := hoverlay.accessible (hprog.access _ σ _ hσ hB)
  have hbyte : m.mem (returnAddr w d) = int3 := by
    obtain ⟨bp, hbp⟩ := Option.isSome_iff_exists.mp h.user_entry
    exact (hoverlay.armed.enabled _ bp hbp (by simp)).2
  have hsaved : savedByte w d.tracee (returnAddr w d) = int3 := by
    rw [hlive, savedByte_stopped haccess, hbyte]
  by_cases hpc : d.getPc w = returnAddr w d
  · have hhere : m.pc = returnAddr w d := (Debugger.getPc_live hlive).symm.trans hpc
    have hlive' : (planted w d).Live m sig := by
      change plant w d.tracee (returnAddr w d) = .stopped m sig
      rw [hlive, plant_over_int3 haccess hbyte]
    have hentry : (planted w d).breakPoints m.pc = some ⟨m.pc, true, int3⟩ := by
      rw [hhere, planted, Debugger.insert_self, hsaved]
    have hstuck := stepped_stuck hlive' (hhere ▸ haccess)
      (hoverlay.signal_eq_none hprog hσ hs.entry_inB) (hhere ▸ hbyte) hentry
    have hkept := h.passed ⟨m.pc, true, int3⟩ (by rw [hpc, ← hhere, hentry])
    have hagain : savedByte w (trapped m) (returnAddr w d) = int3 := by
      have hmapped : accessible w (m.setReg .rip (m.pc + 1)) (returnAddr w d) := haccess
      rw [trapped, savedByte_stopped hmapped]
      exact hbyte
    rw [hpc, hstuck, hhere, hagain] at hkept
    exact hkept
  · rw [AlreadyPlanted, h.entry hpc, hsaved]

/-- With the entry there before, `step_out` is `c`, which never comes to the address. -/
theorem leavesFrame_of_alreadyPlanted (hprog : Debuggable w start B) (hs : Shows w start B d p)
    (hlive : d.Live m sig) (hplanted : AlreadyPlanted d (returnAddr w d))
    (hout : stepOut w fuel d = .ok d') (hlive' : d'.Live m' sig') :
    LeavesFrame (returnAddr w d) d m d' m' := by
  have hcont := stepOut_eq_ok hout
  obtain ⟨σ, hσ, hoverlay⟩ := hs.live m sig hlive
  have hsome : (d.breakPoints (returnAddr w d)).isSome := by
    rw [hplanted]
    rfl
  have hB := hs.entry_inB _ hsome
  have hbyte := (hoverlay.armed.enabled _ _ hplanted (by simp)).2
  have haccess := hoverlay.accessible (hprog.access _ σ _ hσ hB)
  rw [planted_eq_self hlive haccess hbyte hplanted] at hcont
  obtain ⟨k, -, hstop, -, hs'⟩ := continueExecution_shows hprog hs hcont
  obtain ⟨σ', hσ', hoverlay'⟩ := hs'.live m' sig' hlive'
  refine ⟨fun hpc => ?_, fun _ => ?_, hs.table_eq hprog hs' hlive hlive'⟩
  · have hfetch : σ'.mem (returnAddr w d) = int3 := by
      rw [native_mem_eq hprog hB hσ hσ', ← (hoverlay.armed.saved _ _ hplanted).2]
    rw [← hpc, hoverlay'.pc_eq] at hfetch
    exact absurd hfetch (hprog.noInt3 _ σ' hσ')
  · rw [hoverlay'.pc_eq, hs.table]
    exact hstop σ' hσ'

/-- A new breakpoint at the return address is one more place to stop at. -/
theorem stepOut_stops (hprog : Debuggable w start B) (hs : Shows w start B d p)
    (hB : B (returnAddr w d)) (hnew : d.breakPoints (returnAddr w d) = none)
    (hout : stepOut w fuel d = .ok d') :
    ∃ k, 1 ≤ k ∧
      StopsAt w start (fun a => a = returnAddr w d ∨ p.breakPoints a) (p.index + k) ∧
      (∀ j, 1 ≤ j → j < k →
        ¬ StopsAt w start (fun a => a = returnAddr w d ∨ p.breakPoints a) (p.index + j)) ∧
      ∀ m' sig', d'.Live m' sig' →
        ∃ σ', native w start (p.index + k) = some σ' ∧ m'.regs = σ'.regs := by
  have hs₁ := setBreakpoint_shows hprog hs hB hnew (Debugger.setBreakpoint_eq d _)
  obtain ⟨k, hpos, hstop, hfirst, hs'⟩ := continueExecution_shows hprog hs₁ (stepOut_eq_ok hout)
  refine ⟨k, hpos, hstop, hfirst, fun m' sig' hlive' => ?_⟩
  obtain ⟨σ', hσ', hoverlay'⟩ := hs'.live m' sig' hlive'
  exact ⟨σ', hσ', hoverlay'.regs⟩

/--
For every program and every table, `step_out` does what it is for exactly if the
user has an entry at the return address that set there again changes nothing, and
the first stop behind is a breakpoint of his or has left the frame.  A program
that breakpoints do not disturb meets this only with an entry that has saved an
`int3`; without an entry it is stopped where it first comes to the return address
or to a breakpoint of the user.
-/
theorem stepOut_spec (hlive : d.Live m sig) (hout : stepOut w fuel d = .ok d')
    (hlive' : d'.Live m' sig') :
    (LeavesFrame (returnAddr w d) d m d' m' ↔ TableKept w d ∧ StopsRight w d m) ∧
    ∀ start B p, Debuggable w start B → Shows w start B d p →
      (LeavesFrame (returnAddr w d) d m d' m' ↔ AlreadyPlanted d (returnAddr w d)) ∧
      (B (returnAddr w d) → d.breakPoints (returnAddr w d) = none →
        ∃ k σ', 1 ≤ k ∧ native w start (p.index + k) = some σ' ∧ m'.regs = σ'.regs ∧
          (σ'.pc = returnAddr w d ∨ p.breakPoints σ'.pc) ∧
          ∀ j, 1 ≤ j → j < k →
            ¬ StopsAt w start (fun a => a = returnAddr w d ∨ p.breakPoints a) (p.index + j)) := by
  refine ⟨leavesFrame_iff hout hlive', fun start B p hprog hs => ⟨⟨fun hleaves => ?_, ?_⟩,
    fun hB hnew => ?_⟩⟩
  · have hkept := ((leavesFrame_iff hout hlive').mp hleaves).1
    exact hkept.alreadyPlanted hprog hs hlive
  · intro hplanted
    exact leavesFrame_of_alreadyPlanted hprog hs hlive hplanted hout hlive'
  · obtain ⟨k, hpos, hstop, hfirst, hshown⟩ := stepOut_stops hprog hs hB hnew hout
    obtain ⟨σ', hσ', hregs⟩ := hshown m' sig' hlive'
    exact ⟨k, σ', hpos, hσ', hregs, hstop σ' hσ', hfirst⟩

end

/-- Two instructions that run in a circle. -/
def circleWorld : World Unit :=
  { ShadowMemory.sampleWorld with
    exec := fun m => some (m.setReg .rip (if m.pc = 100 then 101 else 100)) }

/-- The frame pointer is 1000, and the return address 300, where an `int3` stands. -/
def circleMemory : Memory := fun x =>
  if x = 300 then int3 else if x = 1008 then 0x2c else if x = 1009 then 0x01 else 0

def circleMachine (mem : Memory) : Machine Unit :=
  ⟨Function.update (fun _ => 1000) .rip 100, mem, ()⟩

def circleDebugger (mem : Memory) (breakPoints : Word → Option BreakPoint) : Debugger Unit :=
  ⟨.stopped (circleMachine mem) ⟨sigtrap, trapTrace⟩, breakPoints, 0⟩

/-- With breakpoints at 300, behind the call, and at 101. -/
def circlePatched : Memory := Function.update (Function.update circleMemory 300 int3) 101 int3

def circleBroken : Debugger Unit :=
  circleDebugger circlePatched
    (Function.update (Function.update (fun _ => none) 300 (some ⟨300, true, int3⟩)) 101
      (some ⟨101, true, 0⟩))

theorem circle_native {n : Nat} {σ : Machine Unit}
    (h : native circleWorld (circleMachine circleMemory) n = some σ) :
    σ.mem = circleMemory ∧ (σ.pc = 100 ∨ σ.pc = 101) := by
  induction n generalizing σ with
  | zero =>
      obtain rfl := Option.some.inj h
      exact ⟨rfl, Or.inl rfl⟩
  | succ n ih =>
      obtain ⟨τ, hτ, hexec⟩ := Option.bind_eq_some_iff.mp h
      obtain rfl := Option.some.inj hexec
      refine ⟨(ih hτ).1, ?_⟩
      rw [Machine.setReg_pc]
      split
      · exact Or.inr rfl
      · exact Or.inl rfl

theorem circle_debuggable (B : Word → Prop) :
    Debuggable circleWorld (circleMachine circleMemory) B where
  noInt3 n σ hσ := by
    obtain ⟨hmem, hpc | hpc⟩ := circle_native hσ
    · rw [hmem, hpc]
      decide
    · rw [hmem, hpc]
      decide
  ignores n σ _ :=
    .of_jumps (fun regs => if regs .rip = 100 then 101 else 100) (fun _ => rfl) B σ
  access n σ a _ _ := rfl
  noSignal _ _ _ _ _ := rfl
  traced _ _ _ _ _ := rfl

theorem circle_set (mem : Memory) (breakPoints : Word → Option BreakPoint) (addr : Word) :
    (circleDebugger mem breakPoints).setBreakpoint circleWorld addr =
      .ok (circleDebugger (Function.update mem addr int3)
        (Function.update breakPoints addr (some ⟨addr, true, mem addr⟩))) := by
  have hlive : (circleDebugger mem breakPoints).Live (circleMachine mem) ⟨sigtrap, trapTrace⟩ :=
    rfl
  exact Debugger.setBreakpoint_live hlive rfl

theorem circle_shows :
    Shows circleWorld (circleMachine circleMemory) (fun _ => True) circleBroken
      ⟨0, fun a => a = 101 ∨ a = 300 ∨ False⟩ := by
  have hs : Shows circleWorld (circleMachine circleMemory) (fun _ => True)
      (circleDebugger circleMemory fun _ => none) ⟨0, fun _ => False⟩ :=
    .of_overlay rfl (by simp [circleDebugger]) (by simp) rfl ⟨rfl, rfl, .of_empty fun _ => rfl⟩
  have hs₁ := setBreakpoint_shows (circle_debuggable _) hs trivial rfl (circle_set _ _ 300)
  exact setBreakpoint_shows (circle_debuggable _) hs₁ trivial (by decide) (circle_set _ _ 101)

/-- Four instructions: the prologue, a call of the function at 100 for as long as
`rcx` is not zero, the epilogue and `ret`. -/
def recursiveWorld : World Unit :=
  { ShadowMemory.sampleWorld with
    exec := fun m =>
      let next := m.setReg .rip (m.pc + 1)
      let rsp := m.regs .rsp
      if m.mem m.pc = 0x55 then
        some { (next.setReg .rsp (rsp - 8)).setReg .rbp (rsp - 8) with
          mem := writeWord m.mem (rsp - 8) (m.regs .rbp) }
      else if m.mem m.pc = 0xe8 then
        if m.regs .rcx = 0 then some next
        else some { ((m.setReg .rip 100).setReg .rsp (rsp - 8)).setReg .rcx (m.regs .rcx - 1) with
          mem := writeWord m.mem (rsp - 8) (m.pc + 1) }
      else if m.mem m.pc = 0xc9 then
        some ((next.setReg .rsp (m.regs .rbp + 8)).setReg .rbp (readWord m.mem (m.regs .rbp)))
      else if m.mem m.pc = 0xc3 then
        some ((m.setReg .rip (readWord m.mem rsp)).setReg .rsp (rsp + 8))
      else some next }

/-- The function at 100, and a frame of it whose caller is the function itself. -/
def recursiveMemory : Memory := fun x =>
  if x = 100 then 0x55 else if x = 101 then 0xe8 else if x = 102 then 0xc9
  else if x = 103 then 0xc3 else if x = 1000 then 0xf8 else if x = 1001 then 0x03
  else if x = 1008 then 102 else 0

/-- Behind the prologue, with one call to go. -/
def recursiveMachine : Machine Unit :=
  ⟨fun r => if r = .rip then 101 else if r = .rcx then 1 else 1000, recursiveMemory, ()⟩

def recursiveDebugger : Debugger Unit :=
  ⟨.stopped recursiveMachine ⟨sigtrap, trapTrace⟩, fun _ => none, 0⟩

/-- The function at its `ret`, called by a program that has an `int3` behind the call. -/
def returningMemory : Memory := fun x =>
  if x = 103 then 0xc3 else if x = 300 then int3 else if x = 1008 then 0x2c
  else if x = 1009 then 0x01 else 0

def returningMachine : Machine Unit :=
  ⟨fun r => if r = .rip then 103 else if r = .rsp then 1008 else 1000, returningMemory, ()⟩

/-- The user has a breakpoint on that `int3`. -/
def returningDebugger : Debugger Unit :=
  ⟨.stopped returningMachine ⟨sigtrap, trapTrace⟩,
    Function.update (fun _ => none) 300 (some ⟨300, true, int3⟩), 0⟩

theorem returning_addr : returnAddr recursiveWorld returningDebugger = 300 := by decide

/-- The program returns and runs into it. -/
theorem returning_stop : FirstStop recursiveWorld returningMachine
    ((returningMachine.setReg .rip 300).setReg .rsp 1016) := by
  refine .later _ _ _ ?_ ?_ (.here _ (Or.inr rfl))
  · rintro (hsignal | hbyte)
    · cases hsignal
    · exact absurd hbyte (by decide)
  · have hread : readWord returningMemory 1008 = 300 := by decide
    change some ((returningMachine.setReg .rip (readWord returningMemory 1008)).setReg .rsp
      (1008 + 8)) = _
    rw [hread]
    rfl

theorem returning_stopsRight : StopsRight recursiveWorld returningDebugger returningMachine := by
  intro d₁ m₁ sig₁ μ hover hlive₁ hstop
  have hlive : returningDebugger.Live returningMachine ⟨sigtrap, trapTrace⟩ := rfl
  have hsame := planted_eq_self (w := recursiveWorld) hlive rfl
    (by rw [returning_addr]; rfl) (by rw [returning_addr]; rfl)
  rw [hsame, Debugger.stepOverBreakpoint_of_none (by decide)] at hover
  obtain rfl := Except.ok.inj hover
  obtain rfl := Debugger.live_unique hlive hlive₁
  obtain rfl := hstop.unique returning_stop
  refine ⟨fun _ => by decide, fun hne => absurd ?_ hne⟩
  rw [returning_addr]
  rfl

/-- The frame is left where the program runs into its own `int3` behind the call;
and where it never comes there, it stops at the other breakpoint of the user. -/
theorem stepOut_spec_samples :
    (∃ d' m' sig', stepOut recursiveWorld 2 returningDebugger = .ok d' ∧ d'.Live m' sig' ∧
      m'.pc = 300 ∧ LeavesFrame 300 returningDebugger returningMachine d' m') ∧
    ∃ d' m' sig', stepOut circleWorld 2 circleBroken = .ok d' ∧ d'.Live m' sig' ∧ m'.pc = 101 ∧
      LeavesFrame 300 circleBroken (circleMachine circlePatched) d' m' := by
  constructor
  · obtain ⟨d', hout, m', sig', hlive', hpc⟩ : ∃ d',
        stepOut recursiveWorld 2 returningDebugger = .ok d' ∧
          ∃ m' sig', d'.Live m' sig' ∧ m'.pc = 300 := ⟨_, rfl, _, _, rfl, by decide⟩
    have hlive : returningDebugger.Live returningMachine ⟨sigtrap, trapTrace⟩ := rfl
    have hkept : TableKept recursiveWorld returningDebugger := by
      refine ⟨fun _ => ?_, fun bp hbp => ?_⟩
      · rw [returning_addr]
        decide
      · rw [planted_of_ne (by rw [returning_addr]; decide)] at hbp
        cases hbp
    have hspec := (stepOut_spec hlive hout hlive').1
    rw [returning_addr] at hspec
    exact ⟨d', m', sig', hout, hlive', hpc, hspec.mpr ⟨hkept, returning_stopsRight⟩⟩
  · obtain ⟨d', hout, m', sig', hlive', hpc⟩ : ∃ d', stepOut circleWorld 2 circleBroken = .ok d' ∧
        ∃ m' sig', d'.Live m' sig' ∧ m'.pc = 101 := ⟨_, rfl, _, _, rfl, by decide⟩
    have hlive : circleBroken.Live (circleMachine circlePatched) ⟨sigtrap, trapTrace⟩ := rfl
    have hspec := (stepOut_spec hlive hout hlive').2 _ _ _ (circle_debuggable _) circle_shows
    exact ⟨d', m', sig', hout, hlive', hpc, hspec.1.mpr rfl⟩

/-- `step_out` stops in an activation further down, and its breakpoint stays. -/
theorem stepOut_stops_deeper :
    ∃ d' m' sig', stepOut recursiveWorld 5 recursiveDebugger = .ok d' ∧ d'.Live m' sig' ∧
      m'.pc = returnAddr recursiveWorld recursiveDebugger ∧
      m'.regs .rsp = 984 ∧ recursiveMachine.regs .rbp + 8 = 1008 ∧
      d'.breakPoints 102 = some ⟨102, true, 0xc9⟩ ∧
      ¬ LeavesFrame (returnAddr recursiveWorld recursiveDebugger) recursiveDebugger
        recursiveMachine d' m' := by
  refine ⟨_, _, _, rfl, rfl, ?_, ?_, rfl, ?_, ?_⟩
  · decide
  · decide
  · decide
  · intro hleaves
    exact absurd (hleaves.returned (by decide)) (by decide)

end CsInternal.MiniGdb.StepOut
