import CsInternal.MiniGdb.ShadowMemory
import CsInternal.MiniGdb.Trace

/-!
# Setting a breakpoint twice

`set_breakpoint` always makes a new entry, whose saved byte is read from the
tracee.  Where a breakpoint already is, that byte is the `int3` of the first
one, and the original byte is lost with the old entry.  The second command is
without effect only where it finds what it would write; and the program's own
instruction is stepped over only where the byte that was saved is its own.  A
ghost remembers the program's own bytes, which no table does.
-/

namespace CsInternal.MiniGdb

open CsInternal.Library CsInternal.Library.ByteMemory CsInternal.MiniGdb.ShadowMemory

section

variable {K : Type} (w : World K)

/-- The states after a sequence of moves. -/
def Debugger.moves (fuel : Nat) (d : Debugger K) (moves : List Move) :
    Except Stop (Debugger K) :=
  moves.foldlM (Debugger.move w fuel) d

/-- The program's own memory behind an event: what an instruction changes is its own. -/
def Event.program (program : Memory) : Event K → Memory
  | .instruction m (some next) => fun x => if next.mem x = m.mem x then program x else next.mem x
  | _ => program

/-- The program's own memory behind a command.  What the user writes belongs to
it, and no byte of a breakpoint does. -/
def ownMemory (d : Debugger K) (l : Record K) (program : Memory) : Memory :=
  match l.cmd, d.tracee with
  | .memoryWrite a data, .stopped m _ => fun x =>
      if Within a 8 x ∧ mappedFor w m a ((x - a).toNat + 1) then byteOf data (x - a).toNat
      else program x
  | _, _ => l.events.foldl Event.program program

/-- The session with the program's own memory as a ghost. -/
def owned (start : Machine K) : System (Debugger K × Memory) (Record K) :=
  (recorded w start).withGhost start.mem (ownMemory w)

/-- The bytes that the requests for a breakpoint at `addr` may change: its own,
and those that a request writes which fails half-way. -/
structure Touched (m : Machine K) (addr x : Word) : Prop where
  within : Within addr 8 x
  mapped : mappedFor w m addr ((x - addr).toNat + 1)
  changed : x = addr ∨ ¬ accessible w m addr

/-- `d'` is as good as `d`, in which `addr` has the entry `bp`. -/
structure SameAsOnce (d : Debugger K) (program : Memory) (addr : Word) (bp : BreakPoint)
    (d' : Debugger K) : Prop where
  tracee : d'.tracee = d.tracee
  saved : ∃ bp', d'.breakPoints addr = some bp' ∧ bp'.savedData = bp.savedData
  later : ∀ fuel moves, d'.moves w fuel moves = d.moves w fuel moves
  /-- what is single-stepped at `addr` has the program's own bytes -/
  original : ∀ m sig bp' m₀ sig₀, d.Live m sig → d'.breakPoints addr = some bp' →
    (d'.disableAt w addr bp').Live m₀ sig₀ → ∀ x, Touched w m addr x → m₀.mem x = program x

/-- The entry and the tracee's memory already are what enabling would make of
them.  Where the word can be accessed, the saved byte is an `int3` itself; where
it cannot, the request reads -1 and writes up to the first unmapped byte. -/
def Rearmed (d : Debugger K) (bp : BreakPoint) : Prop :=
  match d.tracee with
  | .exited => bp.savedData = 0xff
  | .stopped m _ =>
      if accessible w m bp.addr then bp.savedData = int3 ∧ m.mem bp.addr = int3
      else bp.savedData = 0xff ∧ ∀ x, Within bp.addr 8 x →
        mappedFor w m bp.addr ((x - bp.addr).toNat + 1) →
          m.mem x = if x = bp.addr then int3 else 0xff

/-- Besides, the saved byte is the program's own. -/
structure AlreadyRearmed (d : Debugger K) (program : Memory) (bp : BreakPoint) : Prop where
  rearmed : Rearmed w d bp
  own : ∀ m sig, d.Live m sig → ∀ x, Touched w m bp.addr x → program x = bp.savedData

end

variable {K : Type} {w : World K} {d : Debugger K}

theorem lines_of_owned {start : Machine K} {program : Memory}
    (h : (owned w start).Reachable (d, program)) : (lines w start).Reachable d := by
  obtain ⟨first, trace, hinit, hrun⟩ := h.of_withGhost
  have hkeep : ∀ (d : Debugger K) l d', (lines w start).Reachable d →
      (recorded w start).step d l d' → (lines w start).Reachable d' :=
    fun _ _ _ hd hstep => hd.step (recorded_step hstep)
  exact hrun.preserves hkeep (.of_init hinit)

/-- Every session has the memory of its program beside it. -/
theorem owned_of_lines {start : Machine K} (h : (lines w start).Reachable d) :
    ∃ program, (owned w start).Reachable (d, program) := by
  obtain ⟨first, trace, hinit, hrun⟩ := h
  have hkeep : ∀ (d : Debugger K) cmd d', (recorded w start).Reachable d →
      (lines w start).step d cmd d' → (recorded w start).Reachable d' := by
    rintro d cmd d' hd ⟨fuel, printed, hline⟩
    obtain ⟨events, htraced⟩ := exists_record hline
    exact hd.step (a := ⟨cmd, events, _⟩) ⟨rfl, fuel, printed, htraced⟩
  exact (hrun.preserves hkeep (.of_init hinit)).exists_ghost

/-- What is written over a word that cannot be read. -/
theorem byteOf_ones {i : Nat} (hi : i < 8) : byteOf (setLowByte (-1) 0xff) i = 0xff := by
  revert i
  decide

theorem byteOf_unreadable {i : Nat} (hi : i < 8) :
    byteOf (setLowByte (-1) int3) i = if i = 0 then int3 else 0xff := by
  revert i
  decide

/-- The requests on a word that cannot be read. -/
theorem plant_unreadable {m : Machine K} {sig : SigInfo} {addr : Word}
    (h : ¬ accessible w m addr) :
    plant w (.stopped m sig) addr = pokedata w (.stopped m sig) addr (setLowByte (-1) int3) ∧
      savedByte w (.stopped m sig) addr = 0xff := by
  have hdata : peekdata w (.stopped m sig) addr = -1 := if_neg h
  rw [plant, savedByte, hdata]
  exact ⟨rfl, by decide⟩

/-- A request that fails half-way changes nothing if the bytes are there already. -/
theorem pokedata_eq_self_iff {m : Machine K} {sig : SigInfo} {a data : Word} :
    pokedata w (.stopped m sig) a data = .stopped m sig ↔
      ∀ x, Within a 8 x → mappedFor w m a ((x - a).toNat + 1) →
        m.mem x = byteOf data (x - a).toNat := by
  rw [pokedata, Tracee.stopped.injEq]
  constructor
  · rintro ⟨hmachine, _⟩ x hx hmapped
    have hmem := congrFun (congrArg Machine.mem hmachine) x
    simp only [hx, hmapped, and_self, if_true] at hmem
    exact hmem.symm
  · intro h
    refine ⟨?_, rfl⟩
    have hmem : (fun x => if Within a 8 x ∧ mappedFor w m a ((x - a).toNat + 1) then
        byteOf data (x - a).toNat else m.mem x) = m.mem := by
      funext x
      split
      · rename_i hx
        exact (h x hx.1 hx.2).symm
      · rfl
    rw [hmem]

/-- The bytes of the failing request, address by address. -/
theorem unreadable_bytes_iff {m : Machine K} {a : Word} :
    (∀ x, Within a 8 x → mappedFor w m a ((x - a).toNat + 1) →
        m.mem x = byteOf (setLowByte (-1) int3) (x - a).toNat) ↔
      ∀ x, Within a 8 x → mappedFor w m a ((x - a).toNat + 1) →
        m.mem x = if x = a then int3 else 0xff := by
  have hbyte : ∀ x, Within a 8 x → byteOf (setLowByte (-1) int3) (x - a).toNat =
      if x = a then int3 else 0xff := by
    intro x hx
    have hzero : (x - a).toNat = 0 ↔ x = a := by
      constructor
      · intro h
        bv_omega
      · rintro rfl
        simp
    simp only [byteOf_unreadable hx, hzero]
  exact forall_congr' fun x => forall_congr' fun hx => by rw [hbyte x hx]

/-- The command changes nothing if the tracee and the saved byte stay. -/
theorem unchanged_iff {addr : Word} {savedData : BitVec 8} :
    (∃ d', d.setBreakpoint w addr = .ok d' ∧ d'.tracee = d.tracee ∧
        ∃ bp', d'.breakPoints addr = some bp' ∧ bp'.savedData = savedData) ↔
      plant w d.tracee addr = d.tracee ∧ savedByte w d.tracee addr = savedData := by
  rw [Debugger.setBreakpoint_eq]
  constructor
  · rintro ⟨d', hd', htracee, bp', hbp', hsaved⟩
    obtain rfl := Except.ok.inj hd'
    refine ⟨htracee, ?_⟩
    rw [Debugger.insert_self, Option.some.injEq] at hbp'
    rw [← hsaved, ← hbp']
  · rintro ⟨htracee, rfl⟩
    exact ⟨_, rfl, htracee, _, Debugger.insert_self .., rfl⟩

theorem plant_eq_self_iff {m : Machine K} {sig : SigInfo} {addr : Word} :
    Tracee.stopped { m with mem := Function.update m.mem addr int3 } sig = .stopped m sig ↔
      m.mem addr = int3 := by
  rw [Tracee.stopped.injEq]
  constructor
  · rintro ⟨hmachine, _⟩
    have hmem : Function.update m.mem addr int3 addr = m.mem addr :=
      congrFun (congrArg Machine.mem hmachine) addr
    rw [Function.update_self] at hmem
    exact hmem.symm
  · intro h
    rw [← h, Function.update_eq_self]
    exact ⟨rfl, rfl⟩

/-- Tracee and saved byte stay exactly where the command finds what it would write. -/
theorem unchanged_iff_rearmed {addr : Word} {savedData : BitVec 8} :
    (∃ d', d.setBreakpoint w addr = .ok d' ∧ d'.tracee = d.tracee ∧
        ∃ bp', d'.breakPoints addr = some bp' ∧ bp'.savedData = savedData) ↔
      Rearmed w d ⟨addr, true, savedData⟩ := by
  rw [unchanged_iff]
  cases htracee : d.tracee with
  | exited =>
      simp only [Rearmed, htracee, savedByte_exited, plant, pokedata, true_and]
      exact eq_comm
  | stopped m sig =>
      by_cases haccess : accessible w m addr
      · rw [plant_stopped haccess, savedByte_stopped haccess, plant_eq_self_iff]
        simp only [Rearmed, htracee, haccess, if_true]
        constructor
        · rintro ⟨hmem, hsaved⟩
          exact ⟨hsaved.symm.trans hmem, hmem⟩
        · rintro ⟨hsaved, hmem⟩
          exact ⟨hmem, hmem.trans hsaved.symm⟩
      · have hunreadable : plant w (.stopped m sig) addr = _ ∧ _ := plant_unreadable haccess
        rw [hunreadable.1, hunreadable.2, pokedata_eq_self_iff, unreadable_bytes_iff, and_comm]
        simp only [Rearmed, htracee, haccess]
        exact and_congr_left' eq_comm

/-- With tracee and saved byte the same, the whole state is the same. -/
theorem eq_of_unchanged {d' : Debugger K} {addr : Word} {savedData : BitVec 8}
    (hbp : d.breakPoints addr = some ⟨addr, true, savedData⟩)
    (hset : d.setBreakpoint w addr = .ok d') (htracee : d'.tracee = d.tracee)
    (hsaved : ∃ bp', d'.breakPoints addr = some bp' ∧ bp'.savedData = savedData) : d' = d := by
  rw [Debugger.setBreakpoint_eq, Except.ok.injEq] at hset
  subst hset
  obtain ⟨bp', hbp', rfl⟩ := hsaved
  rw [Debugger.insert_self, Option.some.injEq] at hbp'
  subst hbp'
  obtain ⟨tracee, breakPoints, loadAddr⟩ := d
  have hplant : plant w tracee addr = tracee := htracee
  simp only [Debugger.insert, hplant, Debugger.mk.injEq, true_and, and_true]
  exact Function.update_eq_self_iff.mpr hbp.symm

/-- What is single-stepped has the saved byte in all the places that were changed. -/
theorem disableAt_touched {m m₀ : Machine K} {sig sig₀ : SigInfo} (hlive : d.Live m sig)
    {bp : BreakPoint} (hrearmed : Rearmed w d bp) {pc : Word}
    (hlive₀ : (d.disableAt w pc bp).Live m₀ sig₀) {x : Word} (hx : Touched w m bp.addr x) :
    m₀.mem x = bp.savedData := by
  by_cases haccess : accessible w m bp.addr
  · rw [Debugger.disableAt_live hlive haccess] at hlive₀
    obtain ⟨rfl, _⟩ := Tracee.stopped.inj hlive₀
    obtain rfl := hx.changed.resolve_right fun h => h haccess
    exact Function.update_self ..
  · have hsaved : bp.savedData = 0xff := by
      rw [Debugger.Live] at hlive
      simp only [Rearmed, hlive, haccess] at hrearmed
      exact hrearmed.1
    have hdata : peekdata w (.stopped m sig) bp.addr = -1 := if_neg haccess
    rw [Debugger.Live] at hlive hlive₀
    simp only [Debugger.disableAt, BreakPoint.disable, hlive, hdata, hsaved, Debugger.insert,
      pokedata, Tracee.stopped.injEq] at hlive₀
    obtain ⟨rfl, _⟩ := hlive₀
    simp only [hx.within, hx.mapped, and_self, if_true, hsaved]
    exact byteOf_ones hx.within

/--
Setting a breakpoint twice is the same as setting it once exactly where the
program's own byte is an `int3` and the first breakpoint is in place; for a word
that cannot be accessed and for an exited process, where the saved byte and the
bytes in memory are those of the failing requests.
-/
theorem setBreakpoint_twice {start : Machine K} {program : Memory}
    (hreach : (owned w start).Reachable (d, program)) {addr : Word} {bp : BreakPoint}
    (hbp : d.breakPoints addr = some bp) :
    (∃ d', d.setBreakpoint w addr = .ok d' ∧ SameAsOnce w d program addr bp d') ↔
      AlreadyRearmed w d program bp := by
  obtain ⟨bpAddr, enabled, savedData⟩ := bp
  obtain ⟨rfl, rfl⟩ : bpAddr = addr ∧ enabled = true :=
    keyed_of_reachable (lines_of_owned hreach) addr _ hbp
  constructor
  · rintro ⟨d', hset, hsame⟩
    have hrearmed := unchanged_iff_rearmed.mp ⟨d', hset, hsame.tracee, hsame.saved⟩
    obtain rfl := eq_of_unchanged hbp hset hsame.tracee hsame.saved
    refine ⟨hrearmed, fun m sig hlive x hx => ?_⟩
    obtain ⟨mem, hlive₀⟩ := Debugger.disableAt_machine (w := w) hlive bpAddr
      ⟨bpAddr, true, savedData⟩
    rw [← hsame.original m sig _ _ _ hlive hbp hlive₀ x hx]
    exact disableAt_touched hlive hrearmed hlive₀ hx
  · rintro ⟨hrearmed, hown⟩
    obtain ⟨d', hset, htracee, hsaved⟩ := unchanged_iff_rearmed.mpr hrearmed
    obtain rfl := eq_of_unchanged hbp hset htracee hsaved
    refine ⟨d', hset, rfl, hsaved, fun _ _ => rfl, ?_⟩
    intro m sig bp' m₀ sig₀ hlive hbp' hlive₀ x hx
    obtain rfl := Option.some.inj (hbp'.symm.trans hbp)
    rw [hown m sig hlive x hx]
    exact disableAt_touched hlive hrearmed hlive₀ hx

/-! ## The same address twice -/

theorem alreadyRearmed_of_live {m : Machine K} {sig : SigInfo} (hlive : d.Live m sig)
    {program : Memory} {bp : BreakPoint} (haccess : accessible w m bp.addr)
    (hsaved : bp.savedData = int3) (hmem : m.mem bp.addr = int3)
    (hown : program bp.addr = int3) : AlreadyRearmed w d program bp := by
  refine ⟨?_, fun m' sig' hlive' x hx => ?_⟩
  · rw [Debugger.Live] at hlive
    simp only [Rearmed, hlive, haccess, if_true]
    exact ⟨hsaved, hmem⟩
  · obtain rfl := Debugger.live_unique hlive hlive'
    obtain rfl := hx.changed.resolve_right fun h => h haccess
    rw [hown, hsaved]

/-- The session after `b 100` on a program with `mem` in memory. -/
theorem sample_owned (mem : Memory) :
    (owned sampleWorld (sampleMachine mem)).Reachable
      (sampleDebugger (Function.update mem 100 int3)
        (Function.update (fun _ => none) 100 (some ⟨100, true, mem 100⟩)), mem) := by
  have hstart : (owned sampleWorld (sampleMachine mem)).Reachable
      (sampleDebugger mem fun _ => none, mem) := .of_init ⟨⟨_, _, rfl⟩, rfl⟩
  have hline : handleLine sampleWorld 0 (sampleDebugger mem fun _ => none) (.b 100) =
      .ok (sampleDebugger (Function.update mem 100 int3)
        (Function.update (fun _ => none) 100 (some ⟨100, true, mem 100⟩)), .nothing) := by
    rw [handleLine, sample_set]
    rfl
  refine hstart.step (a := ⟨.b 100, [], true⟩) ⟨⟨rfl, 0, .nothing, ?_⟩, rfl⟩
  rw [handleLineTraced, hline]
  · rfl
  · simp

theorem sample_once (mem : Memory) :
    (lines sampleWorld (sampleMachine mem)).Reachable
      (sampleDebugger (Function.update mem 100 int3)
        (Function.update (fun _ => none) 100 (some ⟨100, true, mem 100⟩))) :=
  lines_of_owned (sample_owned mem)

/-- On an address whose own byte is an `int3` the second command is harmless. -/
theorem setBreakpoint_twice_sample :
    ∃ d', (sampleDebugger (Function.update (fun _ => int3) 100 int3)
        (Function.update (fun _ => none) 100 (some ⟨100, true, int3⟩))).setBreakpoint
          sampleWorld 100 = .ok d' ∧
      SameAsOnce sampleWorld (sampleDebugger (Function.update (fun _ => int3) 100 int3)
        (Function.update (fun _ => none) 100 (some ⟨100, true, int3⟩))) (fun _ => int3) 100
          ⟨100, true, int3⟩ d' := by
  refine (setBreakpoint_twice (sample_owned fun _ => int3) rfl).mpr ?_
  have hlive : (sampleDebugger (Function.update (fun _ => int3) 100 int3)
      (Function.update (fun _ => none) 100 (some ⟨100, true, int3⟩))).Live
        (sampleMachine (Function.update (fun _ => int3) 100 int3)) ⟨sigtrap, trapTrace⟩ := rfl
  exact alreadyRearmed_of_live hlive rfl rfl rfl rfl

/-- On any other byte the second command replaces the saved byte by the `int3` of
the first one. -/
theorem setBreakpoint_twice_differs :
    ∃ d program bp, (owned sampleWorld (sampleMachine sampleMemory)).Reachable (d, program) ∧
      d.breakPoints 100 = some bp ∧ bp.enabled = true ∧
      ¬ ∃ d', d.setBreakpoint sampleWorld 100 = .ok d' ∧
        SameAsOnce sampleWorld d program 100 bp d' := by
  refine ⟨_, _, ⟨100, true, 0x90⟩, sample_owned sampleMemory, rfl, rfl, ?_⟩
  rintro ⟨d', hset, hsame⟩
  rw [sample_set] at hset
  obtain rfl := Except.ok.inj hset
  obtain ⟨bp', hbp', hsaved⟩ := hsame.saved
  have hnew : Function.update (Function.update (fun _ => none) (100 : Word)
      (some ⟨100, true, 0x90⟩)) 100 (some ⟨100, true, int3⟩) 100 = some bp' := hbp'
  rw [Function.update_self, Option.some.injEq] at hnew
  rw [← hnew] at hsaved
  revert hsaved
  decide

end CsInternal.MiniGdb
