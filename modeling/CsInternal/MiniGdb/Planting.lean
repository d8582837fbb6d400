import CsInternal.Library.Transition
import CsInternal.MiniGdb.Debugger

/-!
# Breakpoints under every outcome of the requests

`enable` makes two requests and looks at neither result, only at whether
`errno` is negative, which it never is.  Here each request succeeds or fails as
it likes.  A ghost records of every entry whether its saved byte is one that was
read at its address.
-/

namespace CsInternal.MiniGdb.Planting

open CsInternal.Library CsInternal.Library.ByteMemory

/-- What the kernel makes of the requests of one call. -/
structure Outcomes where
  /-- `PTRACE_PEEKDATA` succeeds -/
  peeked : Bool
  /-- the bytes of the word that `PTRACE_POKEDATA` writes; all eight when it succeeds -/
  poked : Nat → Bool

structure State where
  /-- the memory of the tracee, while there is one -/
  mem : Option Memory
  breakPoints : Word → Option BreakPoint
  /-- whether the saved byte of the entry was read there -/
  fromRead : Word → Bool

/-- `PTRACE_PEEKDATA`; -1 is the failure, and a word like any other. -/
def peek (o : Outcomes) (mem : Option Memory) (a : Word) : Word :=
  match mem with
  | some m => if o.peeked then readWord m a else -1
  | none => -1

/-- `PTRACE_POKEDATA` -/
def poke (o : Outcomes) (mem : Option Memory) (a data : Word) : Option Memory :=
  mem.map fun m x => if Within a 8 x ∧ o.poked (x - a).toNat then byteOf data (x - a).toNat else m x

/-- `BreakPoint::enable`; `errno` is what `get_errno` finds behind the requests. -/
def enable (o : Outcomes) (errno : Nat) (mem : Option Memory) (bp : BreakPoint) :
    Except Stop (BreakPoint × Option Memory) :=
  let data := peek o mem bp.addr
  let savedData := (data &&& 0xff).setWidth 8
  let replacedData := (data &&& ~~~0xff) ||| 0xcc
  let mem := poke o mem bp.addr replacedData
  if (errno : Int) < 0 then .error .panicked
  else .ok ({ bp with savedData, enabled := true }, mem)

/-- `BreakPoint::disable` -/
def disable (o : Outcomes) (mem : Option Memory) (bp : BreakPoint) :
    BreakPoint × Option Memory :=
  let data := peek o mem bp.addr
  let replacedData := (data &&& ~~~0xff) ||| bp.savedData.setWidth 64
  let mem := poke o mem bp.addr replacedData
  ({ bp with enabled := false }, mem)

/-- The read that a call makes first succeeds. -/
def ReadOk (s : State) (o : Outcomes) : Bool := s.mem.isSome && o.peeked

/-- `enable` for the entry filed under `pc`, which is inserted or updated. -/
def enableAt (o : Outcomes) (errno : Nat) (s : State) (pc : Word) (bp : BreakPoint) :
    Except Stop State := do
  let (bp, mem) ← enable o errno s.mem bp
  .ok ⟨mem, Function.update s.breakPoints pc (some bp),
    Function.update s.fromRead pc (ReadOk s o)⟩

/-- `set_breakpoint` -/
def setBreakpoint (o : Outcomes) (errno : Nat) (s : State) (addr : Word) : Except Stop State :=
  enableAt o errno s addr (.new addr)

/-- `disable` for the entry filed under `pc`. -/
def disableAt (o : Outcomes) (s : State) (pc : Word) (bp : BreakPoint) : State :=
  let disabled := disable o s.mem bp
  { s with
    mem := disabled.2
    breakPoints := Function.update s.breakPoints pc (some disabled.1) }

inductive Label where
  | set (addr : Word) (o : Outcomes)
  /-- `step_over_breakpoint` disables the entry at `pc` -/
  | disable (pc : Word) (o : Outcomes)
  /-- and enables it again -/
  | enable (pc : Word) (o : Outcomes)
  /-- the tracee runs, or the user writes its memory -/
  | compute

inductive Step (errno : Nat) : State → Label → State → Prop where
  | set (s : State) (addr : Word) (o : Outcomes) (s' : State)
      (hset : setBreakpoint o errno s addr = .ok s') : Step errno s (.set addr o) s'
  | disable (s : State) (pc : Word) (o : Outcomes) (bp : BreakPoint)
      (hbp : s.breakPoints pc = some bp) : Step errno s (.disable pc o) (disableAt o s pc bp)
  | enable (s : State) (pc : Word) (o : Outcomes) (bp : BreakPoint) (s' : State)
      (hbp : s.breakPoints pc = some bp) (henable : enableAt o errno s pc bp = .ok s') :
      Step errno s (.enable pc o) s'
  | compute (s : State) (mem : Option Memory) : Step errno s .compute { s with mem }

def planting (errno : Nat) : System State Label where
  init s := s.breakPoints = fun _ => none
  step := Step errno

/-- Every read that `enable` makes succeeds. -/
def Reads (s : State) : Label → Prop
  | .set _ o | .enable _ o => ReadOk s o
  | .disable _ _ | .compute => True

/-- The breakpoint is there: the byte is an `int3`, and the entry is enabled and
has saved the byte that was there. -/
def Planted (s : State) (addr : Word) (s' : State) : Prop :=
  ∃ m m', s.mem = some m ∧ s'.mem = some m' ∧ m' addr = int3 ∧
    s'.breakPoints addr = some ⟨addr, true, m addr⟩

/-- The breakpoint is planted, or the failure is reported. -/
def PlantedOrReported (o : Outcomes) (errno : Nat) (s : State) (addr : Word) : Prop :=
  (∃ s', setBreakpoint o errno s addr = .ok s' ∧ Planted s addr s') ∨
    ∃ stop, setBreakpoint o errno s addr = .error stop

/-- The tracee is there, and each of the two requests succeeds at the byte
itself or finds what it would have left. -/
def CanPlant (o : Outcomes) (s : State) (addr : Word) : Prop :=
  ∃ m, s.mem = some m ∧ (o.peeked ∨ m addr = 0xff) ∧ (o.poked 0 ∨ m addr = int3)

variable {o : Outcomes} {errno : Nat} {s s' : State}

theorem enableAt_eq (pc : Word) (bp : BreakPoint) :
    enableAt o errno s pc bp =
      .ok ⟨poke o s.mem bp.addr (setLowByte (peek o s.mem bp.addr) int3),
        Function.update s.breakPoints pc
          (some { bp with savedData := byteOf (peek o s.mem bp.addr) 0, enabled := true }),
        Function.update s.fromRead pc (ReadOk s o)⟩ := by
  have herrno : ¬ (errno : Int) < 0 := by omega
  rw [enableAt, enable, if_neg herrno, lowByte_eq]
  rfl

/-- The byte at the address itself. -/
theorem poke_self (m : Memory) (a word : Word) (b : BitVec 8) :
    ∃ m', poke o (some m) a (setLowByte word b) = some m' ∧
      m' a = if o.poked 0 then b else m a := by
  refine ⟨_, rfl, ?_⟩
  have hin : Within a 8 a := by
    rw [Within, BitVec.sub_self]
    decide
  have hzero : (a - a).toNat = 0 := by rw [BitVec.sub_self]; rfl
  simp only [hin, hzero, true_and, byteOf_setLowByte_zero]

/-- What is saved. -/
theorem byteOf_peek (m : Memory) (a : Word) :
    byteOf (peek o (some m) a) 0 = if o.peeked then m a else 0xff := by
  change byteOf (if o.peeked then readWord m a else -1) 0 = _
  split
  · rw [byteOf_readWord m a (by decide), BitVec.add_zero]
  · decide

theorem plantedOrReported_iff (o : Outcomes) (errno : Nat) (s : State) (addr : Word) :
    PlantedOrReported o errno s addr ↔ CanPlant o s addr := by
  rw [PlantedOrReported, setBreakpoint, enableAt_eq]
  constructor
  · rintro (⟨s', hs', m, m', hmem, hmem', hbyte, hentry⟩ | ⟨stop, hstop⟩)
    · obtain rfl := Except.ok.inj hs'
      dsimp only [BreakPoint.new] at hmem' hentry
      rw [hmem] at hmem' hentry
      obtain ⟨m₁, hpoke, hself⟩ := poke_self (o := o) m addr (peek o (some m) addr) int3
      rw [hpoke] at hmem'
      obtain rfl := Option.some.inj hmem'
      rw [Function.update_self, byteOf_peek, Option.some.injEq, BreakPoint.mk.injEq] at hentry
      refine ⟨m, hmem, ?_, ?_⟩
      · cases hpeeked : o.peeked with
        | true => exact Or.inl rfl
        | false =>
            rw [hpeeked] at hentry
            exact Or.inr hentry.2.2.symm
      · cases hpoked : o.poked 0 with
        | true => exact Or.inl rfl
        | false =>
            rw [hself, hpoked] at hbyte
            exact Or.inr hbyte
    · cases hstop
  · rintro ⟨m, hmem, hpeeked, hpoked⟩
    obtain ⟨m', hpoke, hself⟩ := poke_self (o := o) m addr (peek o (some m) addr) int3
    refine Or.inl ⟨_, rfl, m, m', hmem, ?_, ?_, ?_⟩
    · rw [hmem]
      exact hpoke
    · rw [hself]
      split
      · rfl
      · rename_i hnot
        exact hpoked.resolve_left hnot
    · dsimp only [BreakPoint.new]
      rw [Function.update_self, hmem, byteOf_peek]
      split
      · rfl
      · rename_i hnot
        rw [hpeeked.resolve_left hnot]

/-- Every entry has saved a byte that was read at its address. -/
def AllRead (s : State) : Prop :=
  ∀ pc bp, s.breakPoints pc = some bp → bp.addr = pc ∧ s.fromRead pc = true

theorem AllRead.enableAt (hread : AllRead s) {pc : Word} {bp : BreakPoint} (haddr : bp.addr = pc)
    (hok : ReadOk s o) (henable : enableAt o errno s pc bp = .ok s') : AllRead s' := by
  rw [enableAt_eq, Except.ok.injEq] at henable
  subst henable
  intro pc' bp' hbp'
  dsimp only at hbp' ⊢
  by_cases heq : pc' = pc
  · subst heq
    rw [Function.update_self, Option.some.injEq] at hbp'
    subst hbp'
    exact ⟨haddr, (Function.update_self ..).trans hok⟩
  · rw [Function.update_of_ne heq] at hbp'
    refine ⟨(hread pc' bp' hbp').1, ?_⟩
    rw [Function.update_of_ne heq]
    exact (hread pc' bp' hbp').2

theorem AllRead.step (hread : AllRead s) {l : Label} (hreads : Reads s l)
    (hstep : Step errno s l s') : AllRead s' := by
  cases hstep with
  | set addr o s' hset => exact hread.enableAt rfl hreads hset
  | enable pc o bp s' hbp henable => exact hread.enableAt (hread pc bp hbp).1 hreads henable
  | compute mem => exact hread
  | disable pc o bp hbp =>
      intro pc' bp' hbp'
      dsimp only [disableAt] at hbp' ⊢
      by_cases heq : pc' = pc
      · subst heq
        rw [Function.update_self, Option.some.injEq] at hbp'
        subst hbp'
        exact hread pc' bp hbp
      · rw [Function.update_of_ne heq] at hbp'
        exact hread pc' bp' hbp'

theorem allRead_of_reachable (hreach : ((planting errno).restrict Reads).Reachable s) :
    AllRead s := by
  obtain ⟨start, trace, hinit, hrun⟩ := hreach
  have hkeep : ∀ s l s', AllRead s → ((planting errno).restrict Reads).step s l s' → AllRead s' :=
    fun _ _ _ hread hstep => hread.step hstep.2 hstep.1
  refine hrun.preserves hkeep fun pc bp hbp => ?_
  have hempty : start.breakPoints = fun _ => none := hinit
  rw [hempty] at hbp
  cases hbp

/--
A breakpoint is planted, and no failure is ever reported, exactly where the
requests succeed at the byte or find what they would leave.  What a step over
writes back was read at its address as long as `enable` could read; and where
it could not, the entry has saved something else.
-/
theorem planting_spec (errno : Nat) :
    (∀ o s addr, PlantedOrReported o errno s addr ↔ CanPlant o s addr) ∧
    (∀ s, ((planting errno).restrict Reads).Reachable s →
      ∀ pc o s', Step errno s (.disable pc o) s' → s.fromRead pc = true) ∧
    ∀ o s addr s', setBreakpoint o errno s addr = .ok s' → s'.fromRead addr = ReadOk s o := by
  refine ⟨fun o s addr => plantedOrReported_iff o errno s addr, fun s hreach pc o s' hstep => ?_,
    fun o s addr s' hset => ?_⟩
  · cases hstep with
    | disable _ _ bp hbp => exact (allRead_of_reachable hreach pc bp hbp).2
  · rw [setBreakpoint, enableAt_eq, Except.ok.injEq] at hset
    subst hset
    exact Function.update_self ..

/-! ## The debugger -/

section

variable {K : Type} (w : World K)

def memOf : Tracee K → Option Memory
  | .stopped m _ => some m.mem
  | .exited => none

/-- The outcomes of the requests at `a` where only mapped bytes can be accessed. -/
def outcomesAt (t : Tracee K) (a : Word) : Outcomes :=
  match t with
  | .stopped m _ => ⟨accessible w m a, fun i => mappedFor w m a (i + 1)⟩
  | .exited => ⟨false, fun _ => false⟩

def view (fromRead : Word → Bool) (d : Debugger K) : State :=
  ⟨memOf d.tracee, d.breakPoints, fromRead⟩

variable {w}

theorem peek_eq (t : Tracee K) (a : Word) :
    peek (outcomesAt w t a) (memOf t) a = peekdata w t a := by
  cases t <;> rfl

theorem poke_eq (t : Tracee K) (a data : Word) :
    poke (outcomesAt w t a) (memOf t) a data = memOf (pokedata w t a data) := by
  cases t <;> rfl

/-- The calls of the debugger are calls with the outcomes of its world. -/
theorem enableAt_view (d : Debugger K) (pc : Word) (bp : BreakPoint) (fromRead : Word → Bool) :
    ∃ fromRead', (d.enableAt w pc bp).map (view fromRead') =
      enableAt (outcomesAt w d.tracee bp.addr) w.errno (view fromRead d) pc bp := by
  refine ⟨Function.update fromRead pc
    (ReadOk (view fromRead d) (outcomesAt w d.tracee bp.addr)), ?_⟩
  rw [enableAt_eq, Debugger.enableAt, BreakPoint.enable, if_neg errno_nonneg, lowByte_eq]
  dsimp only [view]
  rw [peek_eq, poke_eq]
  rfl

theorem setBreakpoint_view (d : Debugger K) (addr : Word) (fromRead : Word → Bool) :
    ∃ fromRead', (d.setBreakpoint w addr).map (view fromRead') =
      setBreakpoint (outcomesAt w d.tracee addr) w.errno (view fromRead d) addr :=
  enableAt_view d addr (.new addr) fromRead

theorem disableAt_view (d : Debugger K) (pc : Word) (bp : BreakPoint) (fromRead : Word → Bool) :
    view fromRead (d.disableAt w pc bp) =
      disableAt (outcomesAt w d.tracee bp.addr) (view fromRead d) pc bp := by
  dsimp only [disableAt, disable, view]
  rw [peek_eq, poke_eq]
  rfl

end

/-- Every request fails. -/
def unreachableWord : Outcomes := ⟨false, fun _ => false⟩

/-- Every request succeeds. -/
def goodWord : Outcomes := ⟨true, fun _ => true⟩

def sampleState : State := ⟨some fun _ => 0x90, fun _ => none, fun _ => false⟩

/-- With the breakpoint at 100. -/
def samplePlanted : State where
  mem := poke goodWord sampleState.mem 100 (setLowByte (peek goodWord sampleState.mem 100) int3)
  breakPoints := Function.update sampleState.breakPoints 100 (some ⟨100, true, 0x90⟩)
  fromRead := Function.update sampleState.fromRead 100 true

theorem samplePlanted_step : Step 0 sampleState (.set 100 goodWord) samplePlanted := by
  have hsaved : byteOf (peek goodWord sampleState.mem 100) 0 = 0x90 := by decide
  refine .set sampleState 100 goodWord samplePlanted ?_
  rw [setBreakpoint, enableAt_eq, samplePlanted, ← hsaved]
  rfl

/-- The step over the breakpoint writes the `0x90` back that was read. -/
theorem planting_spec_sample : PlantedOrReported goodWord 0 sampleState 100 ∧
    ∃ s', Step 0 samplePlanted (.disable 100 goodWord) s' ∧ samplePlanted.fromRead 100 = true ∧
      ∃ m, s'.mem = some m ∧ m 100 = 0x90 := by
  have hinit : ((planting 0).restrict Reads).init sampleState := rfl
  have hreach := (System.Reachable.of_init hinit).step_admitted samplePlanted_step rfl
  have hdisable : Step 0 samplePlanted (.disable 100 goodWord) _ :=
    .disable samplePlanted 100 goodWord ⟨100, true, 0x90⟩ rfl
  exact ⟨((planting_spec 0).1 goodWord sampleState 100).mpr ⟨_, rfl, Or.inl rfl, Or.inl rfl⟩,
    _, hdisable, (planting_spec 0).2.1 samplePlanted hreach 100 goodWord _ hdisable, _, rfl,
    by decide⟩

/-- Both requests of `set_breakpoint` fail: an entry is made that looks planted,
with the saved byte `0xff`, and a step over that can write puts this byte over
the `0x90` of the program. -/
theorem unplanted_recorded :
    ∃ s', setBreakpoint unreachableWord 0 sampleState 100 = .ok s' ∧
      s'.mem = sampleState.mem ∧ s'.breakPoints 100 = some ⟨100, true, 0xff⟩ ∧
      s'.fromRead 100 = false ∧ ¬ PlantedOrReported unreachableWord 0 sampleState 100 ∧
      ∃ m, (disableAt goodWord s' 100 ⟨100, true, 0xff⟩).mem = some m ∧ m 100 = 0xff := by
  have hnot : ¬ PlantedOrReported unreachableWord 0 sampleState 100 := by
    rw [plantedOrReported_iff]
    rintro ⟨m, hmem, hpeeked, _⟩
    obtain rfl := Option.some.inj hmem
    exact absurd hpeeked (by decide)
  have hsame : (sampleState.mem.map fun m x =>
      if Within 100 8 x ∧ unreachableWord.poked (x - 100).toNat then
        byteOf (setLowByte (peek unreachableWord sampleState.mem 100) int3) (x - 100).toNat
      else m x) = sampleState.mem := by
    simp [unreachableWord, sampleState]
  refine ⟨_, enableAt_eq 100 (.new 100), hsame, rfl, rfl, hnot, _, rfl, ?_⟩
  decide

end CsInternal.MiniGdb.Planting
