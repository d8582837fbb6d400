import CsInternal.MiniGdb.RepeatedBreakpoint
import CsInternal.MiniGdb.Trace

/-!
# Memory commands and breakpoints

The program's memory is the tracee's memory with the saved bytes in the place
of enabled breakpoints.  `memory read` and `memory write` are raw requests that
know nothing of it.  The moves of the debugger, on the other hand, keep it: the
two writes of a step over a breakpoint cancel out in the program's memory, and
whatever else changes there was changed by an instruction.
-/

namespace CsInternal.MiniGdb

open CsInternal.Library CsInternal.Library.ByteMemory CsInternal.MiniGdb.ShadowMemory

/-- The program's memory. -/
def programView (table : Word → Option BreakPoint) (mem : Memory) : Memory := fun x =>
  match table x with
  | some bp => if bp.enabled then bp.savedData else mem x
  | none => mem x

section

variable {K : Type} (w : World K)

/-- The event does not change the byte at `x`. -/
def Event.Spares (x : Word) : Event K → Prop
  | .instruction m (some next) => next.mem x = m.mem x
  | _ => True

/-- The word at `a` is mapped before and after the event. -/
def Event.Maps (a : Word) : Event K → Prop
  | .instruction m next => accessible w m a ∧ ∀ m', next = some m' → accessible w m' a
  | .int3 _ m => accessible w m a
  | .signal m kernel _ => accessible w m a ∧ accessible w { m with kernel } a
  | .stepped _ => True
  | .moveBack => True

/-- The event leaves the byte at `x` alone, and the words of the breakpoints mapped. -/
def Event.Calm (entries : Word → Prop) (x : Word) (e : Event K) : Prop :=
  e.Spares x ∧ ∀ a, entries a → e.Maps w a

def Debugger.Entry (d : Debugger K) (a : Word) : Prop := (d.breakPoints a).isSome

end

variable {K : Type} {w : World K} {d d' : Debugger K} {events : List (Event K)}

theorem programView_none {table : Word → Option BreakPoint} {x : Word} (hx : table x = none)
    (mem : Memory) : programView table mem x = mem x := by
  rw [programView, hx]

theorem programView_enabled {table : Word → Option BreakPoint} {x : Word} {bp : BreakPoint}
    (hx : table x = some bp) (henabled : bp.enabled = true) (mem : Memory) :
    programView table mem x = bp.savedData := by
  simp [programView, hx, henabled]

theorem programView_congr (table : Word → Option BreakPoint) {mem mem' : Memory} {x : Word}
    (h : mem' x = mem x) : programView table mem' x = programView table mem x := by
  simp only [programView, h]

/-- Disabling a breakpoint puts into memory what its entry stood for. -/
theorem programView_disable {table : Word → Option BreakPoint} {pc : Word} {bp : BreakPoint}
    (hbp : table pc = some bp) (henabled : bp.enabled = true) (mem : Memory) :
    programView (Function.update table pc (some { bp with enabled := false }))
      (Function.update mem pc bp.savedData) = programView table mem := by
  funext x
  by_cases hx : x = pc
  · subst hx
    simp [programView, hbp, henabled]
  · simp [programView, hx]

/-- Enabling it moves the byte back into the entry. -/
theorem programView_enable {table : Word → Option BreakPoint} {pc : Word} {bp bp' : BreakPoint}
    (hbp : table pc = some bp) (hdisabled : bp.enabled = false) (mem : Memory)
    (hsaved : bp'.savedData = mem pc) (henabled : bp'.enabled = true) :
    programView (Function.update table pc (some bp')) (Function.update mem pc int3) =
      programView table mem := by
  funext x
  by_cases hx : x = pc
  · subst hx
    simp [programView, hbp, hdisabled, hsaved, henabled]
  · simp [programView, hx]

theorem singlestepTraced_calm {table : Word → Option BreakPoint} {m m' : Machine K}
    {sig sig' : SigInfo} {entries : Word → Prop} {x : Word}
    (h : singlestepTraced w table (.stopped m sig) = (.stopped m' sig', events))
    (hcalm : ∀ e ∈ events, e.Calm w entries x) :
    m'.mem x = m.mem x ∧ ∀ a, entries a → accessible w m a ∧ accessible w m' a := by
  rcases singlestepTraced_cases h with ⟨_, _, _, ht, rfl⟩ | ⟨_, _, ht, rfl⟩ |
    ⟨next, _, ht, rfl⟩ | ⟨_, ht, _⟩
  · obtain ⟨rfl, _⟩ := Tracee.stopped.inj ht
    exact ⟨rfl, (hcalm _ List.mem_cons_self).2⟩
  · obtain ⟨rfl, _⟩ := Tracee.stopped.inj ht
    obtain ⟨_, hmaps⟩ := hcalm _ List.mem_cons_self
    exact ⟨rfl, fun a ha => ⟨hmaps a ha, hmaps a ha⟩⟩
  · obtain ⟨rfl, _⟩ := Tracee.stopped.inj ht
    obtain ⟨hspares, hmaps⟩ := hcalm _ List.mem_cons_self
    exact ⟨hspares, fun a ha => ⟨(hmaps a ha).1, (hmaps a ha).2 _ rfl⟩⟩
  · cases ht

theorem runToStopTraced_calm {table : Word → Option BreakPoint} {fuel : Nat} {m m' : Machine K}
    {sig' : SigInfo} {x : Word}
    (h : runToStopTraced w table fuel m = some (.stopped m' sig', events))
    (hspares : ∀ e ∈ events, e.Spares x) : m'.mem x = m.mem x := by
  induction fuel generalizing m events with
  | zero => cases h
  | succ fuel ih =>
      rcases runToStopTraced_cases h with ⟨_, _, _, ht, _⟩ | ⟨_, _, ht, _⟩ |
        ⟨_, _, ⟨next, rest, _, hrest, rfl⟩ | ⟨_, ht, _⟩⟩
      · obtain ⟨rfl, _⟩ := Tracee.stopped.inj ht
        rfl
      · obtain ⟨rfl, _⟩ := Tracee.stopped.inj ht
        rfl
      · rw [ih hrest fun e he => hspares e (List.mem_cons_of_mem _ he)]
        exact hspares _ List.mem_cons_self
      · cases ht

namespace Debugger

/-- What is stopped at the end was stopped before. -/
theorem live_of_kept {m' : Machine K} {sig' : SigInfo} (hlive' : d'.Live m' sig')
    (hkept : d.tracee = .exited → d'.tracee = .exited) : ∃ m sig, d.Live m sig := by
  cases htracee : d.tracee with
  | stopped m sig => exact ⟨m, sig, htracee⟩
  | exited => exact absurd hlive' (not_live_of_exited (hkept htracee) m' sig')

theorem accessible_congr {m m' : Machine K} (h : m'.kernel = m.kernel) (a : Word) :
    accessible w m' a = accessible w m a := by
  simp only [accessible, mappedFor, h]

theorem disableAt_view {m : Machine K} {sig : SigInfo} (hlive : d.Live m sig) {pc : Word}
    {bp : BreakPoint} (hbp : d.breakPoints pc = some bp) (haddr : bp.addr = pc)
    (henabled : bp.enabled = true) (haccess : accessible w m pc) :
    ∃ m₀, (d.disableAt w pc bp).Live m₀ sig ∧
      programView (d.disableAt w pc bp).breakPoints m₀.mem = programView d.breakPoints m.mem := by
  subst haddr
  rw [disableAt_live hlive haccess]
  exact ⟨_, rfl, programView_disable hbp henabled m.mem⟩

theorem enableAt_view {m : Machine K} {sig : SigInfo} (hlive : d.Live m sig) {pc : Word}
    {bp : BreakPoint} (hbp : d.breakPoints pc = some bp) (haddr : bp.addr = pc)
    (hdisabled : bp.enabled = false) (haccess : accessible w m pc)
    (h : d.enableAt w pc bp = .ok d') :
    ∃ m₁, d'.Live m₁ sig ∧
      programView d'.breakPoints m₁.mem = programView d.breakPoints m.mem := by
  subst haddr
  rw [enableAt_live hlive haccess] at h
  obtain rfl := Except.ok.inj h
  exact ⟨_, rfl, programView_enable hbp hdisabled m.mem rfl rfl⟩

/-- A single step that the tracee survives. -/
theorem singleStepInstructionTraced_calm {m m' : Machine K} {sig sig' : SigInfo} {x : Word}
    {entries : Word → Prop} (h : d.singleStepInstructionTraced w = .ok (d', events))
    (hlive : d.Live m sig) (hlive' : d'.Live m' sig')
    (hcalm : ∀ e ∈ events, e.Calm w entries x) :
    m'.mem x = m.mem x ∧ ∀ a, entries a → accessible w m a ∧ accessible w m' a := by
  obtain ⟨t, stepped, hstepped, hwait, rfl⟩ := singleStepInstructionTraced_eq_ok h
  cases t with
  | exited =>
      exact absurd hlive' (not_live_of_exited (waitForSignal_exited rfl hwait) m' sig')
  | stopped m₁ sig₁ =>
      rw [hlive] at hstepped
      obtain ⟨hmem, hmapped⟩ := singlestepTraced_calm hstepped
        fun e he => hcalm e (List.mem_append_left _ he)
      have hstopped : ({ d with tracee := .stopped m₁ sig₁ } : Debugger K).Live m₁ sig₁ := rfl
      obtain ⟨m₂, hlive₂, hmem₂, hkernel₂⟩ := waitForSignal_live hstopped hwait
      obtain rfl := live_unique hlive' hlive₂
      refine ⟨by rw [hmem₂, hmem], fun a ha => ?_⟩
      rw [accessible_congr hkernel₂]
      exact hmapped a ha

/-- A step over a breakpoint changes the program's memory no more than the
instruction does. -/
theorem stepOverBreakpointTraced_view {m m' : Machine K} {sig sig' : SigInfo} {x : Word}
    {entries : Word → Prop} (h : d.stepOverBreakpointTraced w = .ok (d', events))
    (hkeyed : Keyed d.breakPoints) (hentries : ∀ a, d.Entry a → entries a)
    (hlive : d.Live m sig) (hlive' : d'.Live m' sig')
    (hcalm : ∀ e ∈ events, e.Calm w entries x) :
    programView d'.breakPoints m'.mem x = programView d.breakPoints m.mem x := by
  rcases stepOverBreakpointTraced_eq_ok h with ⟨_, rfl, _⟩ | ⟨bp, d₁, hbp, hsingle, henable⟩
  · rw [live_unique hlive hlive']
  · generalize d.getPc w = pc at hbp hsingle henable
    obtain ⟨haddr, henabled⟩ := hkeyed pc bp hbp
    have hentry : entries pc := hentries pc (by rw [Entry, hbp]; rfl)
    have herased := erase_eq_ok hsingle
    rw [singleStepInstructionTraced_erase] at herased
    have hdisabled := disabled_entry herased
    obtain ⟨m₁, sig₁, hlive₁⟩ := live_of_kept hlive' fun hexited => enableAt_exited hexited henable
    -- what the step records shows that the word is mapped when it is written
    have haccess : accessible w m pc := by
      obtain ⟨mem, hlive₀⟩ := disableAt_machine (w := w) hlive pc bp
      exact ((singleStepInstructionTraced_calm hsingle hlive₀ hlive₁ hcalm).2 pc hentry).1
    obtain ⟨m₀, hlive₀, hview₀⟩ := disableAt_view hlive hbp haddr henabled haccess
    obtain ⟨hmem, hmapped⟩ := singleStepInstructionTraced_calm hsingle hlive₀ hlive₁ hcalm
    obtain ⟨m₂, hlive₂, hview₂⟩ :=
      enableAt_view hlive₁ hdisabled haddr rfl (hmapped pc hentry).2 henable
    have htable : d₁.breakPoints = (d.disableAt w pc bp).breakPoints :=
      singleStepInstruction_breakPoints herased
    calc programView d'.breakPoints m'.mem x
        = programView d₁.breakPoints m₁.mem x := by rw [live_unique hlive' hlive₂, hview₂]
      _ = programView (d.disableAt w pc bp).breakPoints m₀.mem x := by
          rw [htable]
          exact programView_congr _ hmem
      _ = programView d.breakPoints m.mem x := by rw [hview₀]

theorem singleStepTraced_view {m m' : Machine K} {sig sig' : SigInfo} {x : Word}
    {entries : Word → Prop} (h : d.singleStepTraced w = .ok (d', events))
    (hkeyed : Keyed d.breakPoints) (hentries : ∀ a, d.Entry a → entries a)
    (hlive : d.Live m sig) (hlive' : d'.Live m' sig')
    (hcalm : ∀ e ∈ events, e.Calm w entries x) :
    programView d'.breakPoints m'.mem x = programView d.breakPoints m.mem x := by
  rw [singleStepTraced] at h
  split at h
  · exact stepOverBreakpointTraced_view h hkeyed hentries hlive hlive' hcalm
  · have herased := erase_eq_ok h
    rw [singleStepInstructionTraced_erase] at herased
    rw [singleStepInstruction_breakPoints herased]
    exact programView_congr _ (singleStepInstructionTraced_calm h hlive hlive' hcalm).1

theorem continueExecutionTraced_view {fuel : Nat} {m m' : Machine K} {sig sig' : SigInfo}
    {x : Word} {entries : Word → Prop}
    (h : d.continueExecutionTraced w fuel = .ok (d', events))
    (hkeyed : Keyed d.breakPoints) (hentries : ∀ a, d.Entry a → entries a)
    (hlive : d.Live m sig) (hlive' : d'.Live m' sig')
    (hcalm : ∀ e ∈ events, e.Calm w entries x) :
    programView d'.breakPoints m'.mem x = programView d.breakPoints m.mem x := by
  obtain ⟨d₁, passed, t, ran, hover, hcont, hwait, rfl⟩ := continueExecutionTraced_eq_ok h
  cases t with
  | exited =>
      exact absurd hlive' (not_live_of_exited (waitForSignal_exited rfl hwait) m' sig')
  | stopped m₂ sig₂ =>
      obtain ⟨m₁, sig₁, hlive₁⟩ : ∃ m₁ sig₁, d₁.Live m₁ sig₁ := by
        cases htracee : d₁.tracee with
        | stopped m₁ sig₁ => exact ⟨m₁, sig₁, htracee⟩
        | exited =>
            rw [htracee] at hcont
            cases hcont
      rw [hlive₁] at hcont
      have hran : m₂.mem x = m₁.mem x := runToStopTraced_calm hcont fun e he =>
        (hcalm e (List.mem_append_right _ (List.mem_append_left _ he))).1
      have hstopped : ({ d₁ with tracee := .stopped m₂ sig₂ } : Debugger K).Live m₂ sig₂ := rfl
      obtain ⟨m₃, hlive₃, hmem₃, _⟩ := waitForSignal_live hstopped hwait
      have hsame : m'.mem x = m₁.mem x := by rw [live_unique hlive' hlive₃, hmem₃, hran]
      rw [waitForSignal_breakPoints hwait, ← stepOverBreakpointTraced_view hover hkeyed hentries
        hlive hlive₁ fun e he => hcalm e (List.mem_append_left _ he)]
      exact programView_congr _ hsame

theorem stepInLoopTraced_view {oldLoc : Option (String × Nat)} {fuel : Nat} {m m' : Machine K}
    {sig sig' : SigInfo} {x : Word} {entries : Word → Prop}
    (h : d.stepInLoopTraced w oldLoc fuel = .ok (d', events))
    (hkeyed : Keyed d.breakPoints) (hentries : ∀ a, d.Entry a → entries a)
    (hlive : d.Live m sig) (hlive' : d'.Live m' sig')
    (hcalm : ∀ e ∈ events, e.Calm w entries x) :
    programView d'.breakPoints m'.mem x = programView d.breakPoints m.mem x := by
  induction fuel generalizing d m sig events with
  | zero => cases h
  | succ fuel ih =>
      obtain ⟨d₁, stepped, hsingle, ⟨rfl, rfl⟩ | ⟨rest, hrest, rfl⟩⟩ :=
        stepInLoopTraced_succ_eq_ok h
      · exact singleStepTraced_view hsingle hkeyed hentries hlive hlive' hcalm
      · have herased := erase_eq_ok hsingle
        have hloop := erase_eq_ok hrest
        rw [singleStepTraced_erase] at herased
        rw [stepInLoopTraced_erase] at hloop
        obtain ⟨m₁, sig₁, hlive₁⟩ :=
          live_of_kept hlive' fun hexited => stepInLoop_exited hexited hloop
        rw [ih hrest (singleStep_keyed herased hkeyed)
          (fun a ha => hentries a ((singleStep_isSome herased a).mp ha)) hlive₁
          fun e he => hcalm e (List.mem_append_right _ he)]
        exact singleStepTraced_view hsingle hkeyed hentries hlive hlive₁
          fun e he => hcalm e (List.mem_append_left _ he)

theorem moveTraced_view {fuel : Nat} {move : Move} {m m' : Machine K} {sig sig' : SigInfo}
    {x : Word} {entries : Word → Prop} (h : d.moveTraced w fuel move = .ok (d', events))
    (hkeyed : Keyed d.breakPoints) (hentries : ∀ a, d.Entry a → entries a)
    (hlive : d.Live m sig) (hlive' : d'.Live m' sig')
    (hcalm : ∀ e ∈ events, e.Calm w entries x) :
    programView d'.breakPoints m'.mem x = programView d.breakPoints m.mem x := by
  cases move with
  | c => exact continueExecutionTraced_view h hkeyed hentries hlive hlive' hcalm
  | si => exact singleStepTraced_view h hkeyed hentries hlive hlive' hcalm
  | step =>
      obtain ⟨oldLoc, _, hloop⟩ := bind_eq_ok.mp h
      exact stepInLoopTraced_view hloop hkeyed hentries hlive hlive' hcalm

end Debugger

/-- In a session of moves, a byte of the program's memory changes only by an
instruction that changes it. -/
theorem moves_view {start m m' : Machine K} {sig sig' : SigInfo} {trace : List (Record K)}
    {x : Word} {entries : Word → Prop} (hrun : (recorded w start).Run d trace d')
    (hmoves : ∀ l ∈ trace, ∃ move, l.cmd = .move move) (hkeyed : Keyed d.breakPoints)
    (hentries : ∀ a, d.Entry a → entries a) (hlive : d.Live m sig) (hlive' : d'.Live m' sig')
    (hcalm : ∀ l ∈ trace, ∀ e ∈ l.events, e.Calm w entries x) :
    Keyed d'.breakPoints ∧ (∀ a, d'.Entry a → entries a) ∧
      programView d'.breakPoints m'.mem x = programView d.breakPoints m.mem x := by
  induction hrun generalizing m' sig' with
  | refl =>
      rw [Debugger.live_unique hlive' hlive]
      exact ⟨hkeyed, hentries, rfl⟩
  | tail hearlier hstep ih =>
      rename_i l
      obtain ⟨move, hcmd⟩ := hmoves l (by simp)
      obtain ⟨fuel, hmove⟩ := recorded_move hstep hcmd
      have herased := erase_eq_ok hmove
      rw [Debugger.moveTraced_erase] at herased
      obtain ⟨m₁, sig₁, hlive₁⟩ :=
        Debugger.live_of_kept hlive' fun hexited => Debugger.move_exited hexited herased
      obtain ⟨hkeyed₁, hentries₁, hview₁⟩ := ih (fun l hl => hmoves l (List.mem_append_left _ hl))
        hlive₁ fun l hl => hcalm l (List.mem_append_left _ hl)
      refine ⟨Debugger.move_keyed herased hkeyed₁,
        fun a ha => hentries₁ a ((Debugger.move_isSome herased a).mp ha), ?_⟩
      rw [← hview₁]
      exact Debugger.moveTraced_view hmove hkeyed₁ hentries₁ hlive₁ hlive' (hcalm l (by simp))

/-! ## The raw accesses -/

/-- What the two memory commands do at a word `a` of a tracee stopped in `m`. -/
structure RawAccess (w : World K) (start : Machine K) (d : Debugger K) (m : Machine K)
    (sig : SigInfo) (a v : Word) : Prop where
  read : d.readMemory w a = readWord m.mem a
  /-- it is the program's word if every breakpoint in it shows its saved byte -/
  readExact : d.readMemory w a = readWord (programView d.breakPoints m.mem) a ↔
    ∀ x bp, Within a 8 x → d.breakPoints x = some bp → m.mem x = bp.savedData
  write : d.writeMemory w a v =
    { d with tracee := .stopped { m with mem := writeWord m.mem a v } sig }
  /-- the program's memory changes like the tracee's, but not under a breakpoint -/
  writeView : ∀ x, programView d.breakPoints (writeWord m.mem a v) x =
    if (d.breakPoints x).isSome then programView d.breakPoints m.mem x
    else writeWord (programView d.breakPoints m.mem) a v x
  writeExact : programView d.breakPoints (writeWord m.mem a v) =
      writeWord (programView d.breakPoints m.mem) a v ↔
    ∀ x bp, Within a 8 x → d.breakPoints x = some bp → byteOf v (x - a).toNat = bp.savedData
  /-- an armed breakpoint stays so unless another byte is written over it -/
  armed : ∀ x bp, d.breakPoints x = some bp → m.mem x = int3 →
    (writeWord m.mem a v x = int3 ↔ (Within a 8 x → byteOf v (x - a).toNat = int3))
  /-- afterwards only instructions of the tracee change what was written -/
  later : ∀ trace d' m' sig', (recorded w start).Run (d.writeMemory w a v) trace d' →
    (∀ l ∈ trace, ∃ move, l.cmd = .move move) → d'.Live m' sig' →
    ∀ x, (∀ l ∈ trace, ∀ e ∈ l.events, e.Calm w d.Entry x) →
      programView d'.breakPoints m'.mem x =
        programView d.breakPoints (writeWord m.mem a v) x

/-- A word reads the same in both memories where the bytes under breakpoints agree. -/
theorem readWord_programView_iff {table : Word → Option BreakPoint} (hkeyed : Keyed table)
    (mem : Memory) (a : Word) :
    readWord mem a = readWord (programView table mem) a ↔
      ∀ x bp, Within a 8 x → table x = some bp → mem x = bp.savedData := by
  rw [readWord_eq_iff]
  constructor
  · intro h x bp hx hbp
    rw [h x hx, ← readWord_eq_iff.mp rfl x hx,
      programView_enabled hbp (hkeyed x bp hbp).2]
  · intro h x hx
    rw [← readWord_eq_iff.mp rfl x hx]
    cases hbp : table x with
    | none => rw [programView_none hbp]
    | some bp => rw [programView_enabled hbp (hkeyed x bp hbp).2, h x bp hx hbp]

theorem programView_writeWord {table : Word → Option BreakPoint} (hkeyed : Keyed table)
    (mem : Memory) (a v x : Word) :
    programView table (writeWord mem a v) x =
      if (table x).isSome then programView table mem x
      else writeWord (programView table mem) a v x := by
  cases hbp : table x with
  | none =>
      rw [programView_none hbp, writeWord, writeWord, programView_none hbp]
      rfl
  | some bp =>
      rw [programView_enabled hbp (hkeyed x bp hbp).2, programView_enabled hbp (hkeyed x bp hbp).2]
      rfl

/-- The write is a write of the program's memory where the new bytes under
breakpoints are the saved ones. -/
theorem programView_writeWord_eq_iff {table : Word → Option BreakPoint} (hkeyed : Keyed table)
    (mem : Memory) (a v : Word) :
    programView table (writeWord mem a v) = writeWord (programView table mem) a v ↔
      ∀ x bp, Within a 8 x → table x = some bp → byteOf v (x - a).toNat = bp.savedData := by
  constructor
  · intro h x bp hx hbp
    have hbyte := congrFun h x
    rw [programView_enabled hbp (hkeyed x bp hbp).2, writeWord_within _ v hx] at hbyte
    exact hbyte.symm
  · intro h
    funext x
    rw [programView_writeWord hkeyed]
    cases hbp : table x with
    | none => rfl
    | some bp =>
        rw [Option.isSome_some, if_pos rfl]
        by_cases hx : Within a 8 x
        · rw [writeWord_within _ v hx, h x bp hx hbp, programView_enabled hbp (hkeyed x bp hbp).2]
        · rw [writeWord_outside _ v hx]

/--
`memory read` returns the tracee's raw word and `memory write` replaces it, in
every reachable state and at every mapped word; what this means for the
program's memory, for the breakpoints in the word and for later moves is as
`RawAccess` says.
-/
theorem memory_commands_raw {start : Machine K} (hreach : (lines w start).Reachable d)
    {m : Machine K} {sig : SigInfo} (hlive : d.Live m sig) {a : Word}
    (haccess : accessible w m a) (v : Word) : RawAccess w start d m sig a v := by
  have hkeyed := keyed_of_reachable hreach
  have hread : d.readMemory w a = readWord m.mem a := by
    rw [Debugger.readMemory, hlive]
    exact peekdata_stopped haccess sig
  have hwrite : d.writeMemory w a v =
      { d with tracee := .stopped { m with mem := writeWord m.mem a v } sig } := by
    rw [Debugger.writeMemory, hlive, pokedata_stopped haccess sig v]
  refine ⟨hread, ?_, hwrite, programView_writeWord hkeyed m.mem a v,
    programView_writeWord_eq_iff hkeyed m.mem a v, ?_, ?_⟩
  · rw [hread]
    exact readWord_programView_iff hkeyed m.mem a
  · intro x bp _ harmed
    by_cases hx : Within a 8 x
    · rw [writeWord_within _ v hx]
      exact ⟨fun h _ => h, fun h => h hx⟩
    · rw [writeWord_outside _ v hx]
      exact ⟨fun _ hx' => absurd hx' hx, fun _ => harmed⟩
  · intro trace d' m' sig' hrun hmoves hlive' x hcalm
    rw [hwrite] at hrun
    exact (moves_view hrun hmoves hkeyed (fun _ ha => ha) rfl hlive' hcalm).2.2

theorem memory_commands_raw_sample :
    RawAccess sampleWorld (sampleMachine sampleMemory)
      (sampleDebugger (Function.update sampleMemory 100 int3)
        (Function.update (fun _ => none) 100 (some ⟨100, true, 0x90⟩)))
      (sampleMachine (Function.update sampleMemory 100 int3)) ⟨sigtrap, trapTrace⟩ 100 0 :=
  memory_commands_raw (sample_once sampleMemory) rfl rfl 0

/-- After `b 100`, `memory read 100` shows the `int3`, and `memory write 100 0`
leaves the program's memory as it was and the breakpoint without its `int3`. -/
theorem memory_commands_see_breakpoint :
    ∃ d m sig, (lines sampleWorld (sampleMachine sampleMemory)).Reachable d ∧ d.Live m sig ∧
      accessible sampleWorld m 100 = true ∧
      d.readMemory sampleWorld 100 ≠ readWord (programView d.breakPoints m.mem) 100 ∧
      programView d.breakPoints (writeWord m.mem 100 0) ≠
        writeWord (programView d.breakPoints m.mem) 100 0 ∧
      m.mem 100 = int3 ∧ writeWord m.mem 100 0 100 ≠ int3 := by
  have hkeyed := keyed_of_reachable (sample_once sampleMemory)
  have hlive : (sampleDebugger (Function.update sampleMemory 100 int3)
      (Function.update (fun _ => none) 100 (some ⟨100, true, sampleMemory 100⟩))).Live
        (sampleMachine (Function.update sampleMemory 100 int3)) ⟨sigtrap, trapTrace⟩ := rfl
  have haccess : accessible sampleWorld
      (sampleMachine (Function.update sampleMemory 100 int3)) 100 = true := rfl
  refine ⟨_, _, _, sample_once sampleMemory, hlive, haccess, ?_, ?_, rfl, by decide⟩
  · intro hsame
    have hwords := (peekdata_stopped haccess ⟨sigtrap, trapTrace⟩).symm.trans hsame
    have hbyte := (readWord_programView_iff hkeyed _ 100).mp hwords 100 ⟨100, true, 0x90⟩
      (by decide) rfl
    revert hbyte
    decide
  · intro hsame
    have hbyte := (programView_writeWord_eq_iff hkeyed _ 100 0).mp hsame 100 ⟨100, true, 0x90⟩
      (by decide) rfl
    revert hbyte
    decide

end CsInternal.MiniGdb
