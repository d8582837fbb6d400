import CsInternal.MiniGdb.RepeatedBreakpoint
import CsInternal.MiniGdb.Trace

/-!
# Progress of `c`

`handle_sigtrap` rewinds after every `int3`, whoever put it there, and after
every stop with the code `TRAP_BRKPT`.  In the record of a session each such
stop and the rewinding after it stand together, so the debugger rewinds only
after its own breakpoints exactly when there is no other such stop; and then
every stop of `c` is preceded by an instruction of the program, unless a signal
stops the process before the first one.
-/

namespace CsInternal.MiniGdb

open CsInternal.Library CsInternal.Library.ByteMemory CsInternal.MiniGdb.ShadowMemory

variable {K : Type} {w : World K} {d d' : Debugger K} {events : List (Event K)}

/-- The `int3` at the program counter of `m` is one that `enable` wrote. -/
def Inserted (table : Word → Option BreakPoint) (m : Machine K) : Prop :=
  ∃ bp, table m.pc = some bp ∧ bp.enabled = true

/-- The event is a stop behind which the program counter is moved back. -/
def Event.Rewinds : Event K → Prop
  | .int3 _ _ => True
  | .signal _ _ sig => MiniGdb.Rewinds sig
  | .stepped code => MiniGdb.Rewinds ⟨sigtrap, code⟩
  | .instruction _ _ => False
  | .moveBack => False

/-- The byte just executed is an `int3` of the debugger. -/
def Event.OwnTrap : Event K → Prop
  | .int3 table m => Inserted table m
  | _ => False

/-- The tracee runs into no `int3` but those of enabled breakpoints, and no other
stop looks like one. -/
def OnlyOwnTraps (events : List (Event K)) : Prop := ∀ e ∈ events, e.Rewinds → e.OwnTrap

/-- A signal stops the process before its first instruction. -/
def SignalFirst (events : List (Event K)) : Prop :=
  ∃ m kernel sig rest, events = .signal m kernel sig :: rest

/-- The program counter is moved back only right after an inserted `int3`. -/
def RewindsInserted (events : List (Event K)) : Prop :=
  ∀ before after, events = before ++ .moveBack :: after →
    ∃ earlier table m, before = earlier ++ [.int3 table m] ∧ Inserted table m

/-- The tracee has executed an instruction of its program. -/
def Progresses (events : List (Event K)) : Prop := ∃ m next, .instruction m next ∈ events

inductive Paired : List (Event K) → Prop where
  | nil : Paired []
  | plain (e : Event K) {events : List (Event K)} (hplain : ¬ e.Rewinds) (hne : e ≠ .moveBack) :
      Paired events → Paired (e :: events)
  | stop (e : Event K) {events : List (Event K)} (hrewinds : e.Rewinds) :
      Paired events → Paired (e :: .moveBack :: events)

namespace Paired

theorem append {first second : List (Event K)} (hfirst : Paired first)
    (hsecond : Paired second) : Paired (first ++ second) := by
  induction hfirst with
  | nil => exact hsecond
  | plain e hplain hne _ ih => exact .plain e hplain hne ih
  | stop e hrewinds _ ih => exact .stop e hrewinds ih

/-- A stop with what the debugger does behind it. -/
theorem of_stop {e : Event K} {sig : SigInfo} (hsame : e.Rewinds ↔ MiniGdb.Rewinds sig)
    (hne : e ≠ .moveBack) (m : Machine K) : Paired (e :: rewound (.stopped m sig)) := by
  rw [rewound]
  split
  · rename_i hrewinds
    exact .stop e (hsame.mpr hrewinds) .nil
  · rename_i hstays
    exact .plain e (fun h => hstays (hsame.mp h)) hne .nil

/-- Behind each such stop the debugger rewinds. -/
theorem rewound_after (h : Paired events) {e : Event K} (hrewinds : e.Rewinds)
    (hmem : e ∈ events) : ∃ before after, events = before ++ e :: .moveBack :: after := by
  induction h with
  | nil => cases hmem
  | plain e' hplain _ _ ih =>
      rcases List.mem_cons.mp hmem with rfl | hmem
      · exact absurd hrewinds hplain
      · obtain ⟨before, after, rfl⟩ := ih hmem
        exact ⟨e' :: before, after, rfl⟩
  | @stop e' rest _ _ ih =>
      rcases List.mem_cons.mp hmem with rfl | hmem
      · exact ⟨[], rest, rfl⟩
      · rcases List.mem_cons.mp hmem with rfl | hmem
        · exact absurd hrewinds id
        · obtain ⟨before, after, rfl⟩ := ih hmem
          exact ⟨e' :: .moveBack :: before, after, rfl⟩

/-- The debugger rewinds only behind such a stop. -/
theorem stop_before (h : Paired events) {before after : List (Event K)}
    (heq : events = before ++ .moveBack :: after) :
    ∃ earlier e, before = earlier ++ [e] ∧ e.Rewinds := by
  induction h generalizing before with
  | nil => cases before <;> cases heq
  | plain e _ hne _ ih =>
      cases before with
      | nil => exact absurd (List.cons.inj heq).1 hne
      | cons e' before =>
          rw [List.cons_append, List.cons.injEq] at heq
          obtain ⟨rfl, hrest⟩ := heq
          obtain ⟨earlier, e', rfl, hrewinds⟩ := ih hrest
          exact ⟨e :: earlier, e', rfl, hrewinds⟩
  | stop e hrewinds _ ih =>
      cases before with
      | nil =>
          obtain rfl := (List.cons.inj heq).1
          exact absurd hrewinds id
      | cons e' before =>
          rw [List.cons_append, List.cons.injEq] at heq
          obtain ⟨rfl, hrest⟩ := heq
          cases before with
          | nil => exact ⟨[], e, rfl, hrewinds⟩
          | cons e' before =>
              rw [List.cons_append, List.cons.injEq] at hrest
              obtain ⟨rfl, hrest⟩ := hrest
              obtain ⟨earlier, e', rfl, hrewinds'⟩ := ih hrest
              exact ⟨e :: .moveBack :: earlier, e', rfl, hrewinds'⟩

theorem rewindsInserted_iff (h : Paired events) :
    RewindsInserted events ↔ OnlyOwnTraps events := by
  constructor
  · intro hrewinds e hmem hstop
    obtain ⟨before, after, rfl⟩ := h.rewound_after hstop hmem
    obtain ⟨earlier, table, m, hlast, hinserted⟩ := hrewinds (before ++ [e]) after (by simp)
    obtain ⟨_, hsame⟩ := List.append_inj' hlast rfl
    obtain rfl := List.singleton_inj.mp hsame
    exact hinserted
  · intro honly before after heq
    obtain ⟨earlier, e, rfl, hstop⟩ := h.stop_before heq
    have hown := honly e (by simp [heq]) hstop
    cases e with
    | int3 table m => exact ⟨earlier, table, m, rfl, hown⟩
    | instruction _ _ | signal _ _ _ | stepped _ | moveBack => exact absurd hown id

end Paired

theorem trapped_paired (table : Word → Option BreakPoint) (m : Machine K) :
    Paired (.int3 table m :: rewound (trapped m)) :=
  .of_stop (e := .int3 table m) ⟨fun _ => ⟨rfl, Or.inl rfl⟩, fun _ => trivial⟩ (by simp) _

theorem singlestepTraced_paired {table : Word → Option BreakPoint} {t t' : Tracee K}
    (h : singlestepTraced w table t = (t', events)) : Paired (events ++ rewound t') := by
  cases t with
  | exited =>
      cases h
      exact .nil
  | stopped m sig =>
      rcases singlestepTraced_cases h with ⟨_, _, _, rfl, rfl⟩ | ⟨_, _, rfl, rfl⟩ |
        ⟨next, _, rfl, rfl⟩ | ⟨_, rfl, rfl⟩
      · exact .of_stop Iff.rfl (by simp) _
      · exact trapped_paired table m
      · exact .plain _ id (by simp) (.of_stop Iff.rfl (by simp) _)
      · exact .plain _ id (by simp) .nil

theorem runToStopTraced_paired {table : Word → Option BreakPoint} {fuel : Nat} {m : Machine K}
    {t : Tracee K} (h : runToStopTraced w table fuel m = some (t, events)) :
    Paired (events ++ rewound t) := by
  induction fuel generalizing m events with
  | zero => cases h
  | succ fuel ih =>
      rcases runToStopTraced_cases h with ⟨_, _, _, rfl, rfl⟩ | ⟨_, _, rfl, rfl⟩ |
        ⟨_, _, ⟨next, rest, _, hrest, rfl⟩ | ⟨_, rfl, rfl⟩⟩
      · exact .of_stop Iff.rfl (by simp) _
      · exact trapped_paired table m
      · exact .plain _ id (by simp) (ih hrest)
      · exact .plain _ id (by simp) .nil

theorem contTraced_paired {table : Word → Option BreakPoint} {fuel : Nat} {t t' : Tracee K}
    (h : contTraced w table fuel t = some (t', events)) : Paired (events ++ rewound t') := by
  cases t with
  | exited =>
      cases h
      exact .nil
  | stopped m sig => exact runToStopTraced_paired h

namespace Debugger

theorem singleStepInstructionTraced_paired
    (h : d.singleStepInstructionTraced w = .ok (d', events)) : Paired events := by
  obtain ⟨t, stepped, hstepped, _, rfl⟩ := singleStepInstructionTraced_eq_ok h
  exact singlestepTraced_paired hstepped

theorem stepOverBreakpointTraced_paired
    (h : d.stepOverBreakpointTraced w = .ok (d', events)) : Paired events := by
  rcases stepOverBreakpointTraced_eq_ok h with ⟨_, _, rfl⟩ | ⟨bp, d₁, _, hsingle, _⟩
  · exact .nil
  · exact singleStepInstructionTraced_paired hsingle

theorem singleStepTraced_paired (h : d.singleStepTraced w = .ok (d', events)) :
    Paired events := by
  rw [singleStepTraced] at h
  split at h
  · exact stepOverBreakpointTraced_paired h
  · exact singleStepInstructionTraced_paired h

theorem stepInLoopTraced_paired {oldLoc : Option (String × Nat)} {fuel : Nat}
    (h : d.stepInLoopTraced w oldLoc fuel = .ok (d', events)) : Paired events := by
  induction fuel generalizing d events with
  | zero => cases h
  | succ fuel ih =>
      obtain ⟨d₁, stepped, hsingle, ⟨_, rfl⟩ | ⟨rest, hrest, rfl⟩⟩ :=
        stepInLoopTraced_succ_eq_ok h
      · exact singleStepTraced_paired hsingle
      · exact (singleStepTraced_paired hsingle).append (ih hrest)

theorem moveTraced_paired {fuel : Nat} {move : Move}
    (h : d.moveTraced w fuel move = .ok (d', events)) : Paired events := by
  cases move with
  | c =>
      obtain ⟨d₁, passed, t, ran, hover, hcont, _, rfl⟩ := continueExecutionTraced_eq_ok h
      exact (stepOverBreakpointTraced_paired hover).append (contTraced_paired hcont)
  | si => exact singleStepTraced_paired h
  | step =>
      obtain ⟨oldLoc, _, hloop⟩ := bind_eq_ok.mp h
      exact stepInLoopTraced_paired hloop

end Debugger

theorem record_paired {start : Machine K} {l : Record K} (h : (recorded w start).step d l d') :
    Paired l.events := by
  obtain ⟨_, fuel, printed, hline⟩ := h
  have hplain : ∀ (x : Except Stop (Debugger K × Printed)) (events : List (Event K)) p,
      (x >>= fun handled => .ok (handled, ([] : List (Event K)))) = .ok (p, events) →
        Paired events := by
    intro x events p hx
    obtain ⟨handled, _, heq⟩ := bind_eq_ok.mp hx
    cases heq
    exact .nil
  generalize l.cmd = cmd at hline
  cases cmd with
  | move move =>
      obtain ⟨⟨d₁, moved⟩, hmove, heq⟩ := bind_eq_ok.mp hline
      obtain ⟨_, hmoved⟩ := Prod.mk.inj (Except.ok.inj heq)
      rw [← hmoved]
      exact Debugger.moveTraced_paired hmove
  | b _ | rDump | rRead _ | rWrite _ _ | memoryRead _ | memoryWrite _ _ => exact hplain _ _ _ hline

/-! ## Progress -/

theorem singlestepTraced_progresses {table : Word → Option BreakPoint} {m : Machine K}
    {sig : SigInfo} {t : Tracee K}
    (h : singlestepTraced w table (.stopped m sig) = (t, events)) :
    SignalFirst events ∨ .int3 table m ∈ events ∨ Progresses events := by
  rcases singlestepTraced_cases h with ⟨_, _, _, _, rfl⟩ | ⟨_, _, _, rfl⟩ | ⟨_, _, _, rfl⟩ |
    ⟨_, _, rfl⟩
  · exact Or.inl ⟨_, _, _, _, rfl⟩
  · exact Or.inr (Or.inl List.mem_cons_self)
  · exact Or.inr (Or.inr ⟨m, _, List.mem_cons_self⟩)
  · exact Or.inr (Or.inr ⟨m, none, List.mem_cons_self⟩)

theorem runToStopTraced_progresses {table : Word → Option BreakPoint} {fuel : Nat}
    {m : Machine K} {t : Tracee K} (h : runToStopTraced w table fuel m = some (t, events)) :
    SignalFirst events ∨ .int3 table m ∈ events ∨ Progresses events := by
  cases fuel with
  | zero => cases h
  | succ fuel =>
      rcases runToStopTraced_cases h with ⟨_, _, _, _, rfl⟩ | ⟨_, _, _, rfl⟩ |
        ⟨_, _, ⟨_, _, _, _, rfl⟩ | ⟨_, _, rfl⟩⟩
      · exact Or.inl ⟨_, _, _, _, rfl⟩
      · exact Or.inr (Or.inl List.mem_cons_self)
      · exact Or.inr (Or.inr ⟨m, _, List.mem_cons_self⟩)
      · exact Or.inr (Or.inr ⟨m, none, List.mem_cons_self⟩)

theorem SignalFirst.append {first : List (Event K)} (h : SignalFirst first)
    (second : List (Event K)) : SignalFirst (first ++ second) := by
  obtain ⟨m, kernel, sig, rest, rfl⟩ := h
  exact ⟨m, kernel, sig, rest ++ second, rfl⟩

theorem Progresses.append_left {first : List (Event K)} (second : List (Event K))
    (h : Progresses first) : Progresses (first ++ second) := by
  obtain ⟨m, next, hmem⟩ := h
  exact ⟨m, next, List.mem_append_left _ hmem⟩

theorem not_progresses_append {first second : List (Event K)} (hfirst : ¬ Progresses first)
    (hsecond : ¬ Progresses second) : ¬ Progresses (first ++ second) := by
  rintro ⟨m, next, hmem⟩
  rcases List.mem_append.mp hmem with hmem | hmem
  · exact hfirst ⟨m, next, hmem⟩
  · exact hsecond ⟨m, next, hmem⟩

theorem not_progresses_rewound (t : Tracee K) : ¬ Progresses (rewound t) := by
  rintro ⟨m, next, hmem⟩
  cases t with
  | exited => cases hmem
  | stopped m' sig =>
      rw [rewound] at hmem
      split at hmem
      · cases List.mem_singleton.mp hmem
      · cases hmem

/-- A process that a signal or an `int3` stops at once executes nothing. -/
theorem runToStopTraced_idle {table : Word → Option BreakPoint} {fuel : Nat} {m : Machine K}
    {t : Tracee K} (h : runToStopTraced w table fuel m = some (t, events))
    (hstops : (w.signal m).isSome ∨ m.mem m.pc = int3) : ¬ Progresses events := by
  cases fuel with
  | zero => cases h
  | succ fuel =>
      rcases runToStopTraced_cases h with ⟨_, _, _, _, rfl⟩ | ⟨_, _, _, rfl⟩ |
        ⟨hsignal, hbyte, _⟩
      · simp [Progresses]
      · simp [Progresses]
      · rcases hstops with hsome | hint3
        · simp [hsignal] at hsome
        · exact absurd hint3 hbyte

/-- An instruction is fetched from a byte that is mapped. -/
def Fetches (w : World K) : Prop :=
  ∀ m : Machine K, w.mapped m.kernel m.pc = false → (w.signal m).isSome

namespace Debugger

/-- What a stop of `c` began with. -/
theorem continueExecutionTraced_live {fuel : Nat}
    (h : d.continueExecutionTraced w fuel = .ok (d', events))
    (hstopped : d'.tracee.isStopped = true) : ∃ m sig, d.Live m sig := by
  cases htracee : d.tracee with
  | stopped m sig => exact ⟨m, sig, htracee⟩
  | exited =>
      have herased := erase_eq_ok h
      rw [continueExecutionTraced_erase] at herased
      rw [continueExecution_exited htracee herased] at hstopped
      cases hstopped

/-- A stop of `c` comes after an instruction, unless a signal came first or the
tracee ran into an `int3` that is not an enabled breakpoint. -/
theorem continueExecutionTraced_progresses {fuel : Nat}
    (h : d.continueExecutionTraced w fuel = .ok (d', events))
    (hstopped : d'.tracee.isStopped = true) (honly : OnlyOwnTraps events)
    (hfirst : ¬ SignalFirst events) : Progresses events := by
  obtain ⟨m, sig, hlive⟩ := continueExecutionTraced_live h hstopped
  obtain ⟨d₁, passed, t, ran, hover, hcont, _, rfl⟩ := continueExecutionTraced_eq_ok h
  rcases stepOverBreakpointTraced_eq_ok hover with ⟨hentry, rfl, rfl⟩ | ⟨bp, d₂, _, hsingle, _⟩
  · -- no entry at the program counter: the run itself makes the progress
    rw [hlive] at hcont
    rcases runToStopTraced_progresses hcont with hsignal | hint3 | hprogress
    · exact absurd (hsignal.append _) hfirst
    · obtain ⟨bp, hbp, _⟩ := honly (.int3 d₁.breakPoints m) (by simp [hint3]) trivial
      rw [getPc_live hlive, hbp] at hentry
      cases hentry
    · exact hprogress.append_left _
  · -- the single step makes it, with the entry at the program counter disabled
    obtain ⟨t₁, stepped, hstepped, _, rfl⟩ := singleStepInstructionTraced_eq_ok hsingle
    obtain ⟨mem, hdisabled⟩ := disableAt_machine (w := w) hlive (d.getPc w) bp
    rw [hdisabled] at hstepped
    rcases singlestepTraced_progresses hstepped with hsignal | hint3 | hprogress
    · exact absurd ((hsignal.append _).append _) hfirst
    · obtain ⟨bp', hbp', henabled⟩ := honly (.int3 (d.disableAt w (d.getPc w) bp).breakPoints
        { m with mem }) (by simp [hint3]) trivial
      have hentry : (d.disableAt w (d.getPc w) bp).breakPoints (d.getPc w) =
          some { bp with enabled := false } := insert_self ..
      have hpc : ({ m with mem } : Machine K).pc = d.getPc w := (getPc_live hlive).symm
      rw [hpc, hentry, Option.some.injEq] at hbp'
      rw [← hbp'] at henabled
      cases henabled
    · exact (hprogress.append_left _).append_left _

/-- Behind the step over a breakpoint that a signal has stopped, the process is
stopped again at once: by the `int3` that has been planted again, or because the
byte is not mapped. -/
theorem replanted_stops (hfetches : Fetches w) {m : Machine K} {sig : SigInfo} {bp : BreakPoint}
    (hlive : d.Live m sig) (haddr : bp.addr = m.pc) (henable : d.enableAt w m.pc bp = .ok d') :
    ∃ m', d'.Live m' sig ∧ ((w.signal m').isSome ∨ m'.mem m'.pc = int3) := by
  rw [enableAt_eq, haddr, Except.ok.injEq] at henable
  subst henable
  rw [Live] at hlive
  refine ⟨_, by rw [Live, Debugger.insert, hlive]; rfl, ?_⟩
  by_cases hmapped : w.mapped m.kernel m.pc = true
  · right
    have hwithin : Within m.pc 8 m.pc := by simp [Within]
    have hfirst : mappedFor w m m.pc 1 := by simpa [mappedFor] using hmapped
    change (if Within m.pc 8 m.pc ∧ mappedFor w m m.pc ((m.pc - m.pc).toNat + 1) then
      byteOf (setLowByte (peekdata w (.stopped m sig) m.pc) int3) (m.pc - m.pc).toNat
      else m.mem m.pc) = int3
    rw [if_pos ⟨hwithin, by simpa using hfirst⟩, BitVec.sub_self]
    exact byteOf_setLowByte_zero _ _
  · left
    have hgone : w.mapped m.kernel m.pc = false := by simpa using hmapped
    exact hfetches _ hgone

/-- A `c` that a signal stops before the first instruction executes none. -/
theorem continueExecutionTraced_idle (hfetches : Fetches w) {fuel : Nat}
    (h : d.continueExecutionTraced w fuel = .ok (d', events)) (hkeyed : Keyed d.breakPoints)
    (hstopped : d'.tracee.isStopped = true) (honly : OnlyOwnTraps events)
    (hfirst : SignalFirst events) : ¬ Progresses events := by
  obtain ⟨m, sig, hlive⟩ := continueExecutionTraced_live h hstopped
  obtain ⟨d₁, passed, t, ran, hover, hcont, _, rfl⟩ := continueExecutionTraced_eq_ok h
  rcases stepOverBreakpointTraced_eq_ok hover with ⟨_, rfl, rfl⟩ | ⟨bp, d₂, hbp, hsingle, henable⟩
  · rw [hlive] at hcont
    cases fuel with
    | zero => cases hcont
    | succ fuel =>
        refine not_progresses_append (by simp [Progresses])
          (not_progresses_append ?_ (not_progresses_rewound t))
        obtain ⟨m', kernel, sig', rest, heq⟩ := hfirst
        rcases runToStopTraced_cases hcont with ⟨_, _, _, _, rfl⟩ | ⟨_, _, _, rfl⟩ |
          ⟨_, _, ⟨_, _, _, _, rfl⟩ | ⟨_, _, rfl⟩⟩
        · simp [Progresses]
        · simp [Progresses]
        · cases heq
        · cases heq
  · obtain ⟨t₁, stepped, hstepped, hwait, rfl⟩ := singleStepInstructionTraced_eq_ok hsingle
    obtain ⟨mem, hdisabled⟩ := disableAt_machine (w := w) hlive (d.getPc w) bp
    rw [hdisabled] at hstepped
    obtain ⟨m', kernel', sig', rest, heq⟩ := hfirst
    rcases singlestepTraced_cases hstepped with ⟨signal, kernel, _, rfl, rfl⟩ | ⟨_, _, _, rfl⟩ |
      ⟨_, _, _, rfl⟩ | ⟨_, _, rfl⟩
    · -- the signal leaves the program counter where it is
      have hstays : ¬ Rewinds signal := fun hrewinds =>
        honly (.signal { m with mem } kernel signal) (by simp) hrewinds
      have hlive₁ : ({ d.disableAt w (d.getPc w) bp with
          tracee := .stopped { m with mem, kernel } signal } : Debugger K).Live
            { m with mem, kernel } signal := rfl
      have hlive₂ := waitForSignal_shown hlive₁ hwait
      rw [if_neg hstays] at hlive₂
      have hpc : d.getPc w = m.pc := getPc_live hlive
      have haddr : ({ bp with enabled := false } : BreakPoint).addr = m.pc := by
        rw [← hpc]
        exact (hkeyed _ bp hbp).1
      rw [hpc] at henable
      obtain ⟨m₃, hlive₃, hstops⟩ := replanted_stops hfetches hlive₂ haddr henable
      rw [hlive₃] at hcont
      refine not_progresses_append (not_progresses_append (by simp [Progresses])
        (not_progresses_rewound _)) (not_progresses_append ?_ (not_progresses_rewound t))
      exact runToStopTraced_idle hcont hstops
    · cases heq
    · cases heq
    · cases heq

end Debugger

/-- The debugger takes no other stop for one of its breakpoints, and no signal
keeps a `c` from its first instruction. -/
def Undisturbed (l : Record K) : Prop :=
  OnlyOwnTraps l.events ∧ (l.cmd = .move .c → l.stopped = true → ¬ SignalFirst l.events)

/-- What the user may expect of `c`. -/
structure ContinueRight (trace : List (Record K)) : Prop where
  rewinds : RewindsInserted (trace.flatMap Record.events)
  progresses : ∀ l ∈ trace, l.cmd = .move .c → l.stopped = true → Progresses l.events

theorem run_paired {start : Machine K} {trace : List (Record K)}
    (hrun : (recorded w start).Run d trace d') : Paired (trace.flatMap Record.events) := by
  induction hrun with
  | refl => exact .nil
  | tail _ hstep ih =>
      rw [List.flatMap_append]
      refine ih.append ?_
      simpa using record_paired hstep

theorem onlyOwnTraps_flatMap {trace : List (Record K)} :
    OnlyOwnTraps (trace.flatMap Record.events) ↔ ∀ l ∈ trace, OnlyOwnTraps l.events := by
  constructor
  · intro h l hl e hmem
    exact h e (List.mem_flatMap.mpr ⟨l, hl, hmem⟩)
  · intro h e hmem
    obtain ⟨l, hl, hmem⟩ := List.mem_flatMap.mp hmem
    exact h l hl e hmem

/-- A property of a step from an entry-keyed table is one of every step of a run. -/
theorem run_forall {P : Record K → Prop} {start : Machine K} {trace : List (Record K)}
    (hP : ∀ d l d', Keyed d.breakPoints → (recorded w start).step d l d' → P l)
    (hrun : (recorded w start).Run d trace d') (hkeyed : Keyed d.breakPoints) :
    ∀ l ∈ trace, P l := by
  have hkeep : ∀ (d : Debugger K) l d', Keyed d.breakPoints → (recorded w start).step d l d' →
      Keyed d'.breakPoints := by
    intro d l d' hkeyed hstep
    obtain ⟨fuel, printed, hline⟩ := recorded_step hstep
    exact handleLine_keyed hline hkeyed
  induction hrun with
  | refl => simp
  | tail hearlier hstep ih =>
      intro l hl
      rcases List.mem_append.mp hl with hl | hl
      · exact ih l hl
      · obtain rfl := List.mem_singleton.mp hl
        exact hP _ _ _ (hearlier.preserves hkeep hkeyed) hstep

/--
In every session the program counter is moved back only after an `int3` of an
enabled breakpoint, and every stop of `c` comes after an instruction, if the
tracee runs into no other `int3`, no other stop is reported as one, and no signal
comes before the first instruction of a `c`; and only if so, where instructions
are fetched from mapped bytes.
-/
theorem continue_progress {start : Machine K} {trace : List (Record K)}
    (hinit : (recorded w start).init d) (hrun : (recorded w start).Run d trace d') :
    ((∀ l ∈ trace, Undisturbed l) → ContinueRight trace) ∧
    (Fetches w → ContinueRight trace → ∀ l ∈ trace, Undisturbed l) := by
  have hkeyed : Keyed d.breakPoints := by
    obtain ⟨sig, loadAddr, rfl⟩ := hinit
    simp [Keyed]
  constructor
  · intro hundisturbed
    refine ⟨?_, fun l hl => ?_⟩
    · rw [(run_paired hrun).rewindsInserted_iff, onlyOwnTraps_flatMap]
      exact fun l hl => (hundisturbed l hl).1
    · refine run_forall (P := fun l => Undisturbed l → l.cmd = .move .c → l.stopped = true →
        Progresses l.events) ?_ hrun hkeyed l hl (hundisturbed l hl)
      rintro d l d' - hstep ⟨honly, hfirst⟩ hcmd hstopped
      obtain ⟨fuel, hmove⟩ := recorded_move hstep hcmd
      exact Debugger.continueExecutionTraced_progresses hmove (hstep.1.symm.trans hstopped) honly
        (hfirst hcmd hstopped)
  · rintro hfetches ⟨hrewinds, hprogresses⟩ l hl
    rw [(run_paired hrun).rewindsInserted_iff, onlyOwnTraps_flatMap] at hrewinds
    refine ⟨hrewinds l hl, fun hcmd hstopped hfirst => ?_⟩
    refine run_forall (P := fun l => OnlyOwnTraps l.events → l.cmd = .move .c →
      l.stopped = true → SignalFirst l.events → ¬ Progresses l.events) ?_ hrun hkeyed l hl
      (hrewinds l hl) hcmd hstopped hfirst (hprogresses l hl hcmd hstopped)
    rintro d l d' hkeyed hstep honly hcmd hstopped hfirst
    obtain ⟨fuel, hmove⟩ := recorded_move hstep hcmd
    exact Debugger.continueExecutionTraced_idle hfetches hmove hkeyed
      (hstep.1.symm.trans hstopped) honly hfirst

/-- One `c` from 100 to the breakpoint at 101. -/
def sampleRecord : Record Unit where
  cmd := .move .c
  events :=
    [.instruction (sampleMachine (Function.update sampleMemory 101 int3))
        (some ((sampleMachine (Function.update sampleMemory 101 int3)).setReg .rip 101)),
      .int3 (Function.update (fun _ => none) 101 (some ⟨101, true, 0x90⟩))
        ((sampleMachine (Function.update sampleMemory 101 int3)).setReg .rip 101),
      .moveBack]
  stopped := true

theorem sample_continue :
    ∃ d, (recorded sampleWorld (sampleMachine sampleMemory)).Run
      (sampleDebugger sampleMemory fun _ => none) [⟨.b 101, [], true⟩, sampleRecord] d := by
  have hline : handleLine sampleWorld 0 (sampleDebugger sampleMemory fun _ => none) (.b 101) =
      .ok (sampleDebugger (Function.update sampleMemory 101 int3)
        (Function.update (fun _ => none) 101 (some ⟨101, true, 0x90⟩)), .nothing) := by
    rw [handleLine, sample_set]
    rfl
  have hset : (recorded sampleWorld (sampleMachine sampleMemory)).step
      (sampleDebugger sampleMemory fun _ => none) ⟨.b 101, [], true⟩
      (sampleDebugger (Function.update sampleMemory 101 int3)
        (Function.update (fun _ => none) 101 (some ⟨101, true, 0x90⟩))) := by
    refine ⟨rfl, 0, .nothing, ?_⟩
    rw [handleLineTraced, hline]
    · rfl
    · simp
  exact ⟨_, .head hset (.single ⟨rfl, 2, .nothing, rfl⟩)⟩

theorem sampleRecord_undisturbed : Undisturbed sampleRecord := by
  refine ⟨fun e hmem hrewinds => ?_, fun _ _ => ?_⟩
  · simp only [sampleRecord, List.mem_cons, List.not_mem_nil, or_false] at hmem
    obtain rfl | rfl | rfl := hmem
    · exact absurd hrewinds id
    · exact ⟨⟨101, true, 0x90⟩, by simp [sampleMachine], rfl⟩
    · exact absurd hrewinds id
  · simp [SignalFirst, sampleRecord]

theorem continue_progress_sample :
    ContinueRight [⟨.b 101, [], true⟩, sampleRecord] := by
  obtain ⟨d, hrun⟩ := sample_continue
  refine (continue_progress ⟨_, _, rfl⟩ hrun).1 fun l hl => ?_
  obtain rfl | rfl : l = ⟨.b 101, [], true⟩ ∨ l = sampleRecord := by simpa using hl
  · exact ⟨by simp [OnlyOwnTraps], by simp⟩
  · exact sampleRecord_undisturbed

/-- A process at an `int3` of its own, without any breakpoint. -/
def atOwnInt3 (sig : SigInfo) : Debugger Unit :=
  ⟨.stopped (sampleMachine fun _ => int3) sig, fun _ => none, 0⟩

def stuckRecord : Record Unit where
  cmd := .move .c
  events := [.int3 (fun _ => none) (sampleMachine fun _ => int3), .moveBack]
  stopped := true

/-- `c` ends where it began. -/
theorem atOwnInt3_continue (sig : SigInfo) :
    (recorded sampleWorld (sampleMachine fun _ => int3)).step (atOwnInt3 sig) stuckRecord
      (atOwnInt3 ⟨sigtrap, siKernel⟩) := by
  have hback : ((sampleMachine fun _ => int3).setReg .rip (100 + 1)).setReg .rip (100 + 1 - 1) =
      sampleMachine fun _ => int3 := by
    rw [Machine.setReg_setReg]
    exact Machine.setReg_pc_self _
  refine ⟨rfl, 1, .nothing, ?_⟩
  have hmove : (atOwnInt3 sig).continueExecutionTraced sampleWorld 1 =
      .ok (⟨.stopped (((sampleMachine fun _ => int3).setReg .rip (100 + 1)).setReg .rip
        (100 + 1 - 1)) ⟨sigtrap, siKernel⟩, fun _ => none, 0⟩, stuckRecord.events) := rfl
  rw [hback] at hmove
  rw [stuckRecord, handleLineTraced, Debugger.moveTraced, hmove]
  rfl

/-- Two consecutive stops of `c` with no instruction between them, and the program
counter moved back over an `int3` of the program. -/
theorem continue_stuck :
    ∃ (d₀ d : Debugger Unit) (trace : List (Record Unit)),
      (recorded sampleWorld (sampleMachine fun _ => int3)).init d₀ ∧
      (recorded sampleWorld (sampleMachine fun _ => int3)).Run d₀ trace d ∧
      trace.map Record.cmd = [.move .c, .move .c] ∧ (∀ l ∈ trace, l.stopped = true) ∧
      (∀ l ∈ trace, ¬ Progresses l.events) ∧
      ¬ RewindsInserted (trace.flatMap Record.events) := by
  have hrun := (System.Run.single (atOwnInt3_continue ⟨sigtrap, trapTrace⟩)).tail
    (atOwnInt3_continue _)
  refine ⟨_, _, _, ⟨_, _, rfl⟩, hrun, rfl, by simp [stuckRecord],
    by simp [stuckRecord, Progresses], ?_⟩
  rw [(run_paired hrun).rewindsInserted_iff, onlyOwnTraps_flatMap]
  intro honly
  obtain ⟨bp, hbp, _⟩ := honly stuckRecord (by simp)
    (.int3 (fun _ => none) (sampleMachine fun _ => int3)) (by simp [stuckRecord]) trivial
  cases hbp

/-- Every instruction is a system call, whose single step is reported with `TRAP_BRKPT`. -/
def syscallWorld : World Unit := { sampleWorld with stepCode := fun _ => trapBrkpt }

/-- A `c` that steps over a breakpoint on a system call moves the program counter
back behind it, where no `int3` was executed. -/
theorem syscall_rewound :
    ∃ d events, (recorded syscallWorld (sampleMachine sampleMemory)).step
        (sampleDebugger (Function.update sampleMemory 100 int3)
          (Function.update (fun _ => none) 100 (some ⟨100, true, 0x90⟩)))
        ⟨.move .c, events, true⟩ d ∧
      ¬ RewindsInserted events := by
  obtain ⟨d, events, hstep, hmem⟩ : ∃ d events,
      (recorded syscallWorld (sampleMachine sampleMemory)).step
        (sampleDebugger (Function.update sampleMemory 100 int3)
          (Function.update (fun _ => none) 100 (some ⟨100, true, 0x90⟩)))
        ⟨.move .c, events, true⟩ d ∧ .stepped trapBrkpt ∈ events :=
    ⟨_, _, ⟨rfl, 1, .nothing, rfl⟩, List.mem_cons_of_mem _ List.mem_cons_self⟩
  refine ⟨d, events, hstep, fun hrewinds => ?_⟩
  exact (record_paired hstep).rewindsInserted_iff.mp hrewinds _ hmem ⟨rfl, Or.inr rfl⟩

end CsInternal.MiniGdb
