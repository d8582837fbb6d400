import CsInternal.MiniGdb.Commands
import CsInternal.MiniGdb.ShadowMemory

/-!
# Signals for the traced process

Signals other than `SIGTRAP` may stop the tracee in every resume: behind `c`, in
a single step, in the step hidden in `step_over_breakpoint` and in every round
of `step_in`.  They are those of the process itself, and on top of them a
schedule of signals from outside.  Such a signal reaches the process only if the
next request names it.  The debugger passes 0 with all its requests, so none
ever does; without a schedule the session is the one of the command line.
-/

namespace CsInternal.MiniGdb.Signals

open CsInternal.Library CsInternal.Library.ByteMemory CsInternal.MiniGdb.ShadowMemory

/-- A signal for the tracee, after so many instructions of a resume. -/
structure Arrival where
  after : Nat
  sig : SigInfo
  notTrap : sig.siSigno ≠ sigtrap

/-- What the debugger runs on, with the effect of a signal that is delivered:
its handler is entered, or the process ends. -/
structure SignalWorld (K : Type) extends World K where
  deliver : Int → Machine K → Option (Machine K)

/-- A debugger and the signals of its tracee.  The schedule has an entry for
each resume to come; where it is empty or `none`, no signal arrives. -/
structure Session (K : Type) where
  debugger : Debugger K
  schedule : List (Option Arrival)
  sent : List Int
  delivered : List Int

section

variable {K : Type} (w : SignalWorld K)

/-- The signal that arrives now. -/
def due : Option Arrival → Option SigInfo
  | some arrival => if arrival.after = 0 then some arrival.sig else none
  | none => none

/-- One instruction later. -/
def nearer : Option Arrival → Option Arrival :=
  Option.map fun arrival => { arrival with after := arrival.after - 1 }

/-- `PTRACE_SINGLESTEP` up to the stop. -/
def singlestep (arrival : Option Arrival) : Tracee K → Option (Tracee K)
  | .stopped m sig =>
      match due arrival with
      | some signal => some (.stopped m signal)
      | none => some (MiniGdb.singlestep w.toWorld (.stopped m sig))
  | .exited => some .exited

/-- Instructions up to a signal, an `int3` or the end. -/
def runToStop : Nat → Option Arrival → Machine K → Option (Tracee K)
  | 0, _, _ => none
  | fuel + 1, arrival, m =>
      match due arrival with
      | some signal => some (.stopped m signal)
      | none =>
          match w.signal m with
          | some (signal, kernel) => some (.stopped { m with kernel } signal)
          | none =>
              if m.mem m.pc = int3 then some (trapped m)
              else match w.exec m with
                | some next => runToStop fuel (nearer arrival) next
                | none => some .exited

/-- `PTRACE_CONT` up to the stop. -/
def cont (fuel : Nat) (arrival : Option Arrival) : Tracee K → Option (Tracee K)
  | .stopped m _ => runToStop w fuel arrival m
  | .exited => some .exited

/-- The signal that made a stop, if it is not a trap. -/
def signalOf : Tracee K → List Int
  | .stopped _ sig => if sig.siSigno = sigtrap then [] else [sig.siSigno]
  | .exited => []

namespace Session

/-- The last argument of a request: 0, or the signal that the process is to get. -/
def passOn (data : Int) (s : Session K) : Session K :=
  if data = 0 then s
  else match s.debugger.tracee with
    | .stopped m sig =>
        let tracee := match w.deliver data m with
          | some m => .stopped m sig
          | none => .exited
        { s with debugger := { s.debugger with tracee }, delivered := s.delivered ++ [data] }
    | .exited => s

/-- A request that resumes the tracee, which takes the next entry of the schedule. -/
def resume (data : Int) (request : Option Arrival → Tracee K → Option (Tracee K))
    (s : Session K) : Except Stop (Session K) :=
  let s := s.passOn w data
  match request s.schedule.head?.join s.debugger.tracee with
  | none => .error .waiting
  | some tracee =>
      .ok { s with
        debugger := { s.debugger with tracee }
        schedule := s.schedule.tail
        sent := s.sent ++ signalOf tracee }

/-- What the debugger does between two resumes. -/
def lift (f : Debugger K → Except Stop (Debugger K)) (s : Session K) :
    Except Stop (Session K) := do
  let debugger ← f s.debugger
  .ok { s with debugger }

def singleStepInstruction (s : Session K) : Except Stop (Session K) := do
  let s ← s.resume w 0 (singlestep w)
  s.lift (Debugger.waitForSignal w.toWorld)

def stepOverBreakpoint (s : Session K) : Except Stop (Session K) := do
  let pc := s.debugger.getPc w.toWorld
  let s ← match s.debugger.breakPoints pc with
    | some bp =>
        singleStepInstruction w { s with debugger := s.debugger.disableAt w.toWorld pc bp }
    | none => .ok s
  match s.debugger.breakPoints pc with
  | some bp => s.lift fun d => d.enableAt w.toWorld pc bp
  | none => .ok s

def singleStepInstructionWithBreakpointCheck (s : Session K) : Except Stop (Session K) :=
  if (s.debugger.breakPoints (s.debugger.getPc w.toWorld)).isSome then s.stepOverBreakpoint w
  else s.singleStepInstruction w

def continueExecution (fuel : Nat) (s : Session K) : Except Stop (Session K) := do
  let s ← s.stepOverBreakpoint w
  let s ← s.resume w 0 (cont w fuel)
  s.lift (Debugger.waitForSignal w.toWorld)

def stepInLoop (oldLoc : Option (String × Nat)) : Nat → Session K → Except Stop (Session K)
  | 0, _ => .error .waiting
  | fuel + 1, s => do
      let s ← s.singleStepInstructionWithBreakpointCheck w
      match ← s.debugger.sourceForPc w.toWorld with
      | none => .ok s
      | some loc =>
          if some loc ≠ oldLoc then do
            Debugger.printSource w.toWorld loc.1
            .ok s
          else stepInLoop oldLoc fuel s

def move (fuel : Nat) (s : Session K) : Move → Except Stop (Session K)
  | .c => s.continueExecution w fuel
  | .si => s.singleStepInstructionWithBreakpointCheck w
  | .step => do
      let oldLoc ← s.debugger.sourceForPc w.toWorld
      s.stepInLoop w oldLoc fuel

/-- The branch of `handle_command` for a line. -/
def handleLine (fuel : Nat) (s : Session K) : LineCommand → Except Stop (Session K × Printed)
  | .move move => do
      let s ← s.move w fuel move
      .ok (s, .nothing)
  | cmd => do
      let handled ← MiniGdb.handleLine w.toWorld fuel s.debugger cmd
      .ok ({ s with debugger := handled.1 }, handled.2)

end Session

/-- Sessions under any schedule of signals. -/
def signalled (start : Machine K) : System (Session K) LineCommand where
  init s := (∃ sig loadAddr, s.debugger = ⟨.stopped start sig, fun _ => none, loadAddr⟩) ∧
    s.sent = [] ∧ s.delivered = []
  step s cmd s' := ∃ fuel printed, s.handleLine w fuel cmd = .ok (s', printed)

end

variable {K : Type} {w : SignalWorld K} {s s' : Session K}

theorem singlestep_none (t : Tracee K) :
    singlestep w none t = some (MiniGdb.singlestep w.toWorld t) := by
  cases t <;> rfl

theorem runToStop_none (fuel : Nat) (m : Machine K) :
    runToStop w fuel none m = MiniGdb.runToStop w.toWorld fuel m := by
  induction fuel generalizing m with
  | zero => rfl
  | succ fuel ih =>
      simp only [runToStop, MiniGdb.runToStop, due]
      cases w.signal m with
      | some signal => rfl
      | none =>
          simp only
          split
          · rfl
          · cases w.exec m with
            | none => rfl
            | some next => exact ih next

theorem cont_none (fuel : Nat) (t : Tracee K) :
    cont w fuel none t = MiniGdb.cont w.toWorld fuel t := by
  cases t with
  | exited => rfl
  | stopped m sig => exact runToStop_none fuel m

namespace Session

/-- `x` is `y` for a session to which no more signals come from outside. -/
structure Agrees (x : Except Stop (Session K)) (y : Except Stop (Debugger K)) : Prop where
  debugger : x.map Session.debugger = y
  schedule : ∀ s, x = .ok s → s.schedule = []

theorem Agrees.ok (hs : s.schedule = []) : Agrees (.ok s) (.ok s.debugger) := by
  refine ⟨rfl, fun s' h => ?_⟩
  obtain rfl := Except.ok.inj h
  exact hs

theorem Agrees.error (stop : Stop) : Agrees (.error stop : Except Stop (Session K)) (.error stop) :=
  ⟨rfl, by simp⟩

/-- What agrees in both parts agrees as a whole. -/
theorem Agrees.bind {x : Except Stop (Session K)} {y : Except Stop (Debugger K)}
    {f : Session K → Except Stop (Session K)} {g : Debugger K → Except Stop (Debugger K)}
    (hx : Agrees x y) (hf : ∀ s, s.schedule = [] → Agrees (f s) (g s.debugger)) :
    Agrees (x >>= f) (y >>= g) := by
  obtain ⟨hdebugger, hschedule⟩ := hx
  cases x with
  | error e =>
      obtain rfl := hdebugger
      exact .error e
  | ok s =>
      obtain rfl := hdebugger
      exact hf s (hschedule s rfl)

theorem lift_agrees (hs : s.schedule = []) (f : Debugger K → Except Stop (Debugger K)) :
    Agrees (s.lift f) (f s.debugger) := by
  rw [lift]
  cases f s.debugger with
  | error e => exact .error e
  | ok d =>
      refine ⟨rfl, fun s' h => ?_⟩
      obtain rfl := Except.ok.inj h
      exact hs

/-- Without a schedule a request does to the tracee what it does alone, and what
follows agrees if it does so with the new tracee. -/
theorem resume_agrees (hs : s.schedule = [])
    {request : Option Arrival → Tracee K → Option (Tracee K)} {tracee : Tracee K}
    (hrequest : request none s.debugger.tracee = some tracee)
    (f : Debugger K → Except Stop (Debugger K)) :
    Agrees (s.resume w 0 request >>= lift f) (f { s.debugger with tracee }) := by
  obtain ⟨s₁, hresume, hs₁, hd₁⟩ : ∃ s₁, s.resume w 0 request = .ok s₁ ∧ s₁.schedule = [] ∧
      s₁.debugger = { s.debugger with tracee } := by
    rw [resume, passOn, if_pos rfl]
    simp only [hs, List.head?_nil, Option.join_none, List.tail_nil, hrequest]
    exact ⟨_, rfl, rfl, rfl⟩
  rw [hresume, ← hd₁]
  exact lift_agrees hs₁ f

theorem singleStepInstruction_agrees (hs : s.schedule = []) :
    Agrees (s.singleStepInstruction w) (s.debugger.singleStepInstruction w.toWorld) :=
  resume_agrees hs (singlestep_none _) _

theorem stepOverBreakpoint_agrees (hs : s.schedule = []) :
    Agrees (s.stepOverBreakpoint w) (s.debugger.stepOverBreakpoint w.toWorld) := by
  have hrest : ∀ s₁ : Session K, s₁.schedule = [] →
      Agrees (match s₁.debugger.breakPoints (s.debugger.getPc w.toWorld) with
        | some bp => s₁.lift fun d => d.enableAt w.toWorld (s.debugger.getPc w.toWorld) bp
        | none => .ok s₁)
      (match s₁.debugger.breakPoints (s.debugger.getPc w.toWorld) with
        | some bp => s₁.debugger.enableAt w.toWorld (s.debugger.getPc w.toWorld) bp
        | none => .ok s₁.debugger) := by
    intro s₁ hs₁
    cases s₁.debugger.breakPoints (s.debugger.getPc w.toWorld) with
    | none => exact .ok hs₁
    | some bp => exact lift_agrees hs₁ _
  rw [stepOverBreakpoint, Debugger.stepOverBreakpoint]
  cases s.debugger.breakPoints (s.debugger.getPc w.toWorld) with
  | none => exact hrest s hs
  | some bp =>
      refine Agrees.bind ?_ hrest
      exact singleStepInstruction_agrees (s := { s with
        debugger := s.debugger.disableAt w.toWorld (s.debugger.getPc w.toWorld) bp }) hs

theorem singleStep_agrees (hs : s.schedule = []) :
    Agrees (s.singleStepInstructionWithBreakpointCheck w)
      (s.debugger.singleStepInstructionWithBreakpointCheck w.toWorld) := by
  rw [singleStepInstructionWithBreakpointCheck,
    Debugger.singleStepInstructionWithBreakpointCheck]
  split
  · exact stepOverBreakpoint_agrees hs
  · exact singleStepInstruction_agrees hs

theorem continueExecution_agrees (fuel : Nat) (hs : s.schedule = []) :
    Agrees (s.continueExecution w fuel) (s.debugger.continueExecution w.toWorld fuel) := by
  rw [continueExecution, Debugger.continueExecution]
  refine (stepOverBreakpoint_agrees hs).bind fun s₁ hs₁ => ?_
  cases hcont : MiniGdb.cont w.toWorld fuel s₁.debugger.tracee with
  | some tracee => exact resume_agrees hs₁ ((cont_none _ _).trans hcont) _
  | none =>
      have hresume : s₁.resume w 0 (cont w fuel) = .error .waiting := by
        rw [resume, passOn, if_pos rfl]
        simp only [hs₁, List.head?_nil, Option.join_none, cont_none, hcont]
      rw [hresume]
      exact .error _

theorem stepInLoop_agrees (oldLoc : Option (String × Nat)) (fuel : Nat) (hs : s.schedule = []) :
    Agrees (s.stepInLoop w oldLoc fuel)
      (Debugger.stepInLoop w.toWorld oldLoc fuel s.debugger) := by
  induction fuel generalizing s with
  | zero => exact .error _
  | succ fuel ih =>
      rw [stepInLoop, Debugger.stepInLoop]
      refine (singleStep_agrees hs).bind fun s₁ hs₁ => ?_
      cases s₁.debugger.sourceForPc w.toWorld with
      | error e => exact .error e
      | ok found =>
          cases found with
          | none => exact .ok hs₁
          | some loc =>
              change Agrees (if some loc ≠ oldLoc then _ else _)
                (if some loc ≠ oldLoc then _ else _)
              split
              · cases Debugger.printSource w.toWorld loc.1 with
                | error e => exact .error e
                | ok _ => exact .ok hs₁
              · exact ih hs₁

/-- Without a schedule the moves are those of the command line. -/
theorem move_agrees (fuel : Nat) (hs : s.schedule = []) (move : Move) :
    Agrees (s.move w fuel move) (s.debugger.move w.toWorld fuel move) := by
  cases move with
  | c => exact continueExecution_agrees fuel hs
  | si => exact singleStep_agrees hs
  | step =>
      rw [Session.move, Debugger.move, Debugger.stepIn]
      cases s.debugger.sourceForPc w.toWorld with
      | error e => exact .error e
      | ok oldLoc => exact stepInLoop_agrees oldLoc fuel hs

end Session

/-! ## Nothing is passed on -/

namespace Session

theorem lift_delivered {f : Debugger K → Except Stop (Debugger K)} (h : s.lift f = .ok s') :
    s'.delivered = s.delivered := by
  obtain ⟨d, _, h⟩ := bind_eq_ok.mp h
  cases h
  rfl

/-- A request with 0 takes up to one signal from the schedule and delivers none. -/
theorem resume_delivered {request : Option Arrival → Tracee K → Option (Tracee K)}
    (h : s.resume w 0 request = .ok s') : s'.delivered = s.delivered := by
  rw [resume, passOn, if_pos rfl] at h
  cases hrequest : request s.schedule.head?.join s.debugger.tracee with
  | none =>
      simp only [hrequest] at h
      cases h
  | some result =>
      simp only [hrequest] at h
      cases h
      rfl

theorem singleStepInstruction_delivered (h : s.singleStepInstruction w = .ok s') :
    s'.delivered = s.delivered := by
  obtain ⟨s₁, hresume, hwait⟩ := bind_eq_ok.mp h
  rw [lift_delivered hwait, resume_delivered hresume]

theorem stepOverBreakpoint_delivered (h : s.stepOverBreakpoint w = .ok s') :
    s'.delivered = s.delivered := by
  rw [stepOverBreakpoint] at h
  have hrest : ∀ s₁ : Session K, (match s₁.debugger.breakPoints (s.debugger.getPc w.toWorld) with
      | some bp => s₁.lift fun d => d.enableAt w.toWorld (s.debugger.getPc w.toWorld) bp
      | none => .ok s₁) = .ok s' → s'.delivered = s₁.delivered := by
    intro s₁ h₁
    split at h₁
    · exact lift_delivered h₁
    · cases h₁
      rfl
  split at h
  · obtain ⟨s₁, hsingle, h⟩ := bind_eq_ok.mp h
    rw [hrest s₁ h, singleStepInstruction_delivered hsingle]
  · obtain ⟨s₁, hsame, h⟩ := bind_eq_ok.mp h
    cases hsame
    exact hrest s h

theorem singleStep_delivered (h : s.singleStepInstructionWithBreakpointCheck w = .ok s') :
    s'.delivered = s.delivered := by
  rw [singleStepInstructionWithBreakpointCheck] at h
  split at h
  · exact stepOverBreakpoint_delivered h
  · exact singleStepInstruction_delivered h

theorem stepInLoop_delivered {oldLoc : Option (String × Nat)} {fuel : Nat}
    (h : s.stepInLoop w oldLoc fuel = .ok s') : s'.delivered = s.delivered := by
  induction fuel generalizing s with
  | zero => cases h
  | succ fuel ih =>
      obtain ⟨s₁, hsingle, h⟩ := bind_eq_ok.mp h
      obtain ⟨found, -, h⟩ := bind_eq_ok.mp h
      cases found with
      | none =>
          cases h
          exact singleStep_delivered hsingle
      | some loc =>
          simp only at h
          split at h
          · obtain ⟨_, -, h⟩ := bind_eq_ok.mp h
            cases h
            exact singleStep_delivered hsingle
          · rw [ih h, singleStep_delivered hsingle]

theorem move_delivered {fuel : Nat} {move : Move} (h : s.move w fuel move = .ok s') :
    s'.delivered = s.delivered := by
  cases move with
  | c =>
      obtain ⟨s₁, hover, h⟩ := bind_eq_ok.mp h
      obtain ⟨s₂, hresume, hwait⟩ := bind_eq_ok.mp h
      rw [lift_delivered hwait, resume_delivered hresume, stepOverBreakpoint_delivered hover]
  | si => exact singleStep_delivered h
  | step =>
      obtain ⟨oldLoc, -, hloop⟩ := bind_eq_ok.mp h
      exact stepInLoop_delivered hloop

theorem handleLine_delivered {fuel : Nat} {cmd : LineCommand} {printed : Printed}
    (h : s.handleLine w fuel cmd = .ok (s', printed)) : s'.delivered = s.delivered := by
  have hplain : ∀ x : Except Stop (Debugger K × Printed),
      (x >>= fun handled => .ok ({ s with debugger := handled.1 }, handled.2)) =
        .ok (s', printed) → s'.delivered = s.delivered := by
    intro x hx
    obtain ⟨handled, _, heq⟩ := bind_eq_ok.mp hx
    cases heq
    rfl
  cases cmd with
  | move move =>
      obtain ⟨s₁, hmove, h⟩ := bind_eq_ok.mp h
      cases h
      exact move_delivered hmove
  | b _ | rDump | rRead _ | rWrite _ _ | memoryRead _ | memoryWrite _ _ => exact hplain _ h

end Session

/--
Whatever signals arrive and whatever the user types, no signal is ever
delivered; so the process gets the signals sent to it exactly if none was sent.
-/
theorem signals_discarded {start : Machine K} (hreach : (signalled w start).Reachable s) :
    s.delivered = [] ∧ (s.delivered = s.sent ↔ s.sent = []) := by
  have hkeep : ∀ (s : Session K) cmd s', s.delivered = [] → (signalled w start).step s cmd s' →
      s'.delivered = [] := by
    rintro s cmd s' hs ⟨fuel, printed, hline⟩
    rw [Session.handleLine_delivered hline, hs]
  have hnone : s.delivered = [] := by
    obtain ⟨first, trace, ⟨_, _, hdelivered⟩, hrun⟩ := hreach
    exact hrun.preserves hkeep hdelivered
  rw [hnone]
  exact ⟨rfl, eq_comm⟩

def sampleSignalWorld : SignalWorld Unit where
  toWorld := sampleWorld
  deliver _ m := some m

/-- `SIGUSR1`, before the next instruction. -/
def sampleArrival : Arrival := ⟨0, ⟨10, 0⟩, by decide⟩

/-- The process of the sample, which is to get one signal. -/
def sampleSession : Session Unit :=
  ⟨sampleDebugger sampleMemory fun _ => none, [some sampleArrival], [], []⟩

/-- The signal stops the first `si`; the second one executes an instruction. -/
theorem sample_swallowed :
    ∃ s, (signalled sampleSignalWorld (sampleMachine sampleMemory)).Reachable s ∧
      s.sent = [10] ∧
      s.debugger.Live ((sampleMachine sampleMemory).setReg .rip 101) ⟨sigtrap, trapTrace⟩ := by
  have hstart : (signalled sampleSignalWorld (sampleMachine sampleMemory)).Reachable
      sampleSession := .of_init ⟨⟨_, _, rfl⟩, rfl, rfl⟩
  have hstopped := hstart.step (a := .move .si) ⟨0, .nothing, rfl⟩
  exact ⟨_, hstopped.step (a := .move .si) ⟨0, .nothing, rfl⟩, rfl, rfl⟩

theorem signals_discarded_sample :
    ∃ s, (signalled sampleSignalWorld (sampleMachine sampleMemory)).Reachable s ∧
      s.sent = [10] ∧ s.delivered = [] ∧ (s.delivered = s.sent ↔ s.sent = []) := by
  obtain ⟨s, hs, hsent, _⟩ := sample_swallowed
  exact ⟨s, hs, hsent, signals_discarded hs⟩

/-- The stop by the signal is over, and the process has not got it. -/
theorem signal_swallowed :
    ¬ ∀ s, (signalled sampleSignalWorld (sampleMachine sampleMemory)).Reachable s →
      (∀ m sig, s.debugger.Live m sig → sig.siSigno = sigtrap) → s.delivered = s.sent := by
  intro hpassed
  have hstart : (signalled sampleSignalWorld (sampleMachine sampleMemory)).Reachable
      sampleSession := .of_init ⟨⟨_, _, rfl⟩, rfl, rfl⟩
  have hstopped := hstart.step (a := .move .si) ⟨0, .nothing, rfl⟩
  have hresumed := hstopped.step (a := .move .si) ⟨0, .nothing, rfl⟩
  have hdelivered := hpassed _ hresumed fun m sig hlive => by
    obtain ⟨_, rfl⟩ := Tracee.stopped.inj hlive
    rfl
  cases hdelivered

end CsInternal.MiniGdb.Signals
