import CsInternal.MiniGdb.ShadowMemory
import CsInternal.MiniGdb.Commands

/-!
# The lines that a user types

`handle_command` on the text of a line: the tests of its first characters, the
words, and the conversions.  A missing word is an index out of range, and a
word that does not convert is an error that `run` passes on, which ends the
session.
-/

namespace CsInternal.MiniGdb

open CsInternal.Library CsInternal.Library.ByteMemory

/-- A `&str`, as its characters. -/
abbrev Str := List Char

/-- `char::is_whitespace` -/
def isWhitespace (c : Char) : Bool :=
  let n := c.toNat
  (9 ≤ n && n ≤ 13) || n == 0x20 || n == 0x85 || n == 0xa0 || n == 0x1680 ||
    (0x2000 ≤ n && n ≤ 0x200a) || n == 0x2028 || n == 0x2029 || n == 0x202f || n == 0x205f ||
    n == 0x3000

/-- The words of a text behind the letters of a word already begun, last one first. -/
def wordsFrom : Str → Str → List Str
  | [], [] => []
  | [], word => [word.reverse]
  | c :: rest, word =>
      if isWhitespace c then
        if word = [] then wordsFrom rest [] else word.reverse :: wordsFrom rest []
      else wordsFrom rest (c :: word)

/-- `line.split_whitespace().collect::<Vec<_>>()` -/
def splitWhitespace (line : Str) : List Str := wordsFrom line []

/-- `s.starts_with(start)` -/
def startsWith (s : Str) (start : String) : Bool := start.toList.isPrefixOf s

/-- `s.trim_start_matches("0x")` -/
def trimHexPrefix : Str → Str
  | '0' :: 'x' :: rest => trimHexPrefix rest
  | s => s

/-- `s.trim_start_matches("%")` -/
def trimPercent (s : Str) : Str := s.dropWhile (· == '%')

/-- `c.to_digit(16)` -/
def toDigit (c : Char) : Option Nat :=
  if '0' ≤ c ∧ c ≤ '9' then some (c.toNat - '0'.toNat)
  else if 'a' ≤ c ∧ c ≤ 'f' then some (c.toNat - 'a'.toNat + 10)
  else if 'A' ≤ c ∧ c ≤ 'F' then some (c.toNat - 'A'.toNat + 10)
  else none

/-- The digits behind a number already read; `none` at a character that is no
digit and where 64 bits do not hold the number. -/
def digitsFrom : Str → Nat → Option Word
  | [], n => some (BitVec.ofNat 64 n)
  | c :: rest, n =>
      match toDigit c with
      | none => none
      | some v => if n * 16 + v < 2 ^ 64 then digitsFrom rest (n * 16 + v) else none

/-- `u64::from_str_radix(s, 16)`; one plus sign may stand in front. -/
def fromStrRadix (s : Str) : Option Word :=
  let digits := if s.head? = some '+' then s.tail else s
  if digits = [] then none else digitsFrom digits 0

/-- `enum_iterator::all::<Reg>()` -/
def Reg.all : List Reg :=
  [.rax, .rbx, .rcx, .rdx, .rdi, .rsi, .rbp, .rsp, .r8, .r9, .r10, .r11, .r12, .r13, .r14, .r15,
    .rip, .rflags, .cs, .origRax, .fsBase, .gsBase, .fs, .gs, .ss, .ds, .es]

/-- `reg.name()` -/
def Reg.name : Reg → String
  | .rax => "RAX" | .rbx => "RBX" | .rcx => "RCX" | .rdx => "RDX" | .rdi => "RDI" | .rsi => "RSI"
  | .rbp => "RBP" | .rsp => "RSP" | .r8 => "R8" | .r9 => "R9" | .r10 => "R10" | .r11 => "R11"
  | .r12 => "R12" | .r13 => "R13" | .r14 => "R14" | .r15 => "R15" | .rip => "RIP"
  | .rflags => "RFLAGS" | .cs => "CS" | .origRax => "ORIG_RAX" | .fsBase => "FS_BASE"
  | .gsBase => "GS_BASE" | .fs => "FS" | .gs => "GS" | .ss => "SS" | .ds => "DS" | .es => "ES"

/-- `Reg::try_from` -/
def Reg.tryFrom (value : Str) : Option Reg :=
  let value := value.map Char.toUpper
  Reg.all.find? (fun r => r.name.toList == value)

/-- How `handle_command` ends, with the debugger as it is then where no move is
under way. -/
inductive Outcome (K : Type) where
  /-- `Ok(())` -/
  | prompt (d : Debugger K)
  /-- `Err`, from a conversion -/
  | failed (d : Debugger K)
  /-- a panic at `parts[k]` -/
  | outOfRange (d : Debugger K)
  /-- a panic in a move -/
  | panicked
  /-- the move has not returned yet -/
  | waiting
  /-- the loop has been left by `exit` or `quit` -/
  | left (d : Debugger K)

namespace Outcome

variable {K : Type}

def ofMove : Except Stop (Debugger K) → Outcome K
  | .ok d => .prompt d
  | .error .panicked => .panicked
  | .error .waiting => .waiting

/-- `parts[k]`, and what is done with it. -/
def index (d : Debugger K) (parts : List Str) (k : Nat) (next : Str → Outcome K) : Outcome K :=
  match parts[k]? with
  | none => .outOfRange d
  | some part => next part

/-- A conversion with `?`, and what is done with its value. -/
def convert {α : Type} (d : Debugger K) (value : Option α) (next : α → Outcome K) : Outcome K :=
  match value with
  | none => .failed d
  | some v => next v

end Outcome

section

variable {K : Type} (w : World K)

/-- `handle_command` -/
def handleCommandLine (fuel : Nat) (d : Debugger K) (line : Str) : Outcome K :=
  let parts := splitWhitespace line
  if line = "c".toList then .ofMove (d.continueExecution w fuel)
  else if startsWith line "b " then
    .index d parts 1 fun addr =>
      .convert d (fromStrRadix (trimHexPrefix addr)) fun addr => .ofMove (d.setBreakpoint w addr)
  else if startsWith line "r " then
    .index d parts 1 fun sub =>
      if startsWith sub "dump" then .prompt d
      else if startsWith sub "read" then
        .index d parts 2 fun reg => .convert d (Reg.tryFrom (trimPercent reg)) fun _ => .prompt d
      else if startsWith sub "write" then
        .index d parts 2 fun reg => .convert d (Reg.tryFrom (trimPercent reg)) fun reg =>
          .index d parts 3 fun val => .convert d (fromStrRadix (trimHexPrefix val)) fun val =>
            .prompt (d.setReg reg val)
      else .prompt d
  else if startsWith line "memory " then
    .index d parts 1 fun sub =>
      if startsWith sub "read" then
        .index d parts 2 fun addr =>
          .convert d (fromStrRadix (trimHexPrefix addr)) fun _ => .prompt d
      else if startsWith sub "write" then
        .index d parts 2 fun addr => .convert d (fromStrRadix (trimHexPrefix addr)) fun addr =>
          .index d parts 3 fun data => .convert d (fromStrRadix (trimHexPrefix data)) fun data =>
            .prompt (d.writeMemory w addr data)
      else .prompt d
  else if startsWith line "si" then .ofMove (d.singleStepInstructionWithBreakpointCheck w)
  else if startsWith line "step" then .ofMove (d.stepIn w fuel)
  else .prompt d

/-- The loop of `run` on the lines typed. -/
def run (fuel : Nat) (d : Debugger K) : List Str → Outcome K
  | [] => .prompt d
  | line :: rest =>
      if line = "exit".toList ∨ line = "quit".toList then .left d
      else match handleCommandLine w fuel d line with
        | .prompt d => run fuel d rest
        | stop => stop

end

/-- The word `k` of the line is there and passes the test. -/
def wordIs (line : Str) (k : Nat) (test : Str → Bool) : Prop :=
  ∃ word, (splitWhitespace line)[k]? = some word ∧ test word = true

def isNumber (word : Str) : Bool := (fromStrRadix (trimHexPrefix word)).isSome

def isReg (word : Str) : Bool := (Reg.tryFrom (trimPercent word)).isSome

/-- The words behind a command word are there and convert.  A line that begins
with none of the three needs none. -/
structure WellFormed (line : Str) : Prop where
  b : startsWith line "b " → wordIs line 1 isNumber
  r : startsWith line "r " → ∃ sub, (splitWhitespace line)[1]? = some sub ∧
    (startsWith sub "read" → wordIs line 2 isReg) ∧
    (startsWith sub "write" → wordIs line 2 isReg ∧ wordIs line 3 isNumber)
  memory : startsWith line "memory " → ∃ sub, (splitWhitespace line)[1]? = some sub ∧
    (startsWith sub "read" → wordIs line 2 isNumber) ∧
    (startsWith sub "write" → wordIs line 2 isNumber ∧ wordIs line 3 isNumber)

/-- The move that a line asks for. -/
def moveOf (line : Str) : Option Move :=
  if line = "c".toList then some .c
  else if startsWith line "si" then some .si
  else if startsWith line "step" then some .step
  else none

section

variable {K : Type} (w : World K)

/-- `wait_for_signal` can show where the tracee stopped. -/
def Showable (d : Debugger K) : Prop :=
  (getSignalInfo w d.tracee).siSigno = sigtrap →
  ((getSignalInfo w d.tracee).siCode = siKernel ∨ (getSignalInfo w d.tracee).siCode = trapBrkpt) →
    1 ≤ d.getPc w ∧
      d.loadAddr ≤ (d.setPc (d.getPc w - 1)).getPc w ∧
      ∃ found, w.findLocation ((d.setPc (d.getPc w - 1)).getPc w - d.loadAddr) = .ok found ∧
        ∀ loc, found = some loc → w.openable (loc.file.getD "")

/-- `step_in` can look up where the tracee is. -/
def Located (d : Debugger K) : Prop :=
  d.loadAddr ≤ d.getPc w ∧
    ∃ found, w.findLocation (d.getPc w - d.loadAddr) = .ok found ∧
      ∀ loc, found = some loc → loc.file.isSome ∧ loc.line.isSome

/-- Every stop of the loop of `step_in` can be shown and looked up. -/
def QuietLoop (oldLoc : Option (String × Nat)) : Nat → Debugger K → Prop
  | 0, _ => True
  | fuel + 1, d => Showable w (stepped w d) ∧
      ∀ d₁, d.singleStepInstructionWithBreakpointCheck w = .ok d₁ → Located w d₁ ∧
        ∀ loc, d₁.sourceForPc w = .ok (some loc) →
          (some loc ≠ oldLoc → w.openable loc.1) ∧ (some loc = oldLoc → QuietLoop oldLoc fuel d₁)

/-- Every stop of a move can be shown, and what `step` needs can be looked up. -/
def Quiet (fuel : Nat) (d : Debugger K) : Move → Prop
  | .c => ((d.breakPoints (d.getPc w)).isSome → Showable w (stepped w d)) ∧
      ∀ d₁ t, d.stepOverBreakpoint w = .ok d₁ → cont w fuel d₁.tracee = some t →
        Showable w { d₁ with tracee := t }
  | .si => Showable w (stepped w d)
  | .step => Located w d ∧ ∀ oldLoc, d.sourceForPc w = .ok oldLoc → QuietLoop w oldLoc fuel d

end

section

variable {K : Type} {w : World K} {d : Debugger K}

theorem bind_ne_panicked_iff {α β : Type} {x : Except Stop α} {f : α → Except Stop β} :
    (x >>= f) ≠ .error .panicked ↔
      x ≠ .error .panicked ∧ ∀ a, x = .ok a → f a ≠ .error .panicked := by
  cases x with
  | error stop =>
      refine ⟨fun h => ⟨fun heq => h (by rw [Except.error.inj heq]; rfl), fun a ha => ?_⟩,
        fun h heq => h.1 (by rw [Except.error.inj heq])⟩
      cases ha
  | ok a =>
      refine ⟨fun h => ⟨by simp, fun b hb => ?_⟩, fun h => h.2 a rfl⟩
      rw [← Except.ok.inj hb]
      exact h

theorem checkedSub_ne_panicked_iff {a b : Word} : checkedSub a b ≠ .error .panicked ↔ b ≤ a := by
  rw [checkedSub]
  split
  · rename_i hlt
    exact ⟨fun h => absurd rfl h, fun hle => absurd hlt (by bv_omega)⟩
  · exact ⟨fun _ => by bv_omega, fun _ => by simp⟩

theorem printSource_ne_panicked_iff (path : String) :
    Debugger.printSource w path ≠ .error .panicked ↔ w.openable path := by
  rw [Debugger.printSource]
  split
  · rename_i hopen
    simp [hopen]
  · rename_i hopen
    simp [hopen]

theorem Debugger.setPc_loadAddr (d : Debugger K) (pc : Word) :
    (d.setPc pc).loadAddr = d.loadAddr := rfl

theorem showable_iff (d : Debugger K) :
    Showable w d ↔ d.waitForSignal w ≠ .error .panicked := by
  rw [Debugger.waitForSignal, Showable]
  split
  · rename_i hsig
    rw [Debugger.handleSigtrap]
    split
    · rename_i hcode
      rw [bind_ne_panicked_iff, checkedSub_ne_panicked_iff]
      refine ⟨fun hshow => ?_, fun hquiet _ _ => ?_⟩
      · obtain ⟨hpc, hload, found, hfound, hopen⟩ := hshow hsig hcode
        refine ⟨hpc, fun pc hok => ?_⟩
        obtain rfl := checkedSub_eq_ok hok
        refine bind_ne_panicked_iff.mpr ⟨checkedSub_ne_panicked_iff.mpr hload, fun offset hok => ?_⟩
        obtain rfl := checkedSub_eq_ok hok
        rw [Debugger.setPc_loadAddr, hfound]
        cases found with
        | none => simp
        | some loc =>
            exact bind_ne_panicked_iff.mpr
              ⟨(printSource_ne_panicked_iff _).mpr (hopen loc rfl), fun _ _ => by simp⟩
      · obtain ⟨hpc, hrest⟩ := hquiet
        have hafter := bind_ne_panicked_iff.mp (hrest _ (checkedSub_of_le hpc))
        have hload := checkedSub_ne_panicked_iff.mp hafter.1
        have hlookup := hafter.2 _ (checkedSub_of_le hload)
        refine ⟨hpc, hload, ?_⟩
        cases hfind : w.findLocation
            ((d.setPc (d.getPc w - 1)).getPc w - (d.setPc (d.getPc w - 1)).loadAddr) with
        | error e =>
            rw [hfind] at hlookup
            exact absurd rfl hlookup
        | ok found =>
            refine ⟨found, hfind, fun loc hloc => ?_⟩
            subst hloc
            rw [hfind] at hlookup
            exact (printSource_ne_panicked_iff _).mp (bind_ne_panicked_iff.mp hlookup).1
    · rename_i hcode
      simp [hcode]
  · rename_i hsig
    simp [hsig]

theorem located_iff (d : Debugger K) : Located w d ↔ d.sourceForPc w ≠ .error .panicked := by
  rw [Debugger.sourceForPc, Located, bind_ne_panicked_iff, Debugger.offsetLoadAddress,
    checkedSub_ne_panicked_iff]
  refine and_congr_right fun hload => ⟨fun hlocated offset hok => ?_, fun hquiet => ?_⟩
  · obtain rfl := checkedSub_eq_ok hok
    obtain ⟨found, hfound, hparts⟩ := hlocated
    rw [hfound]
    cases found with
    | none => simp
    | some loc =>
        obtain ⟨hfile, hline⟩ := hparts loc rfl
        obtain ⟨file, hfile⟩ := Option.isSome_iff_exists.mp hfile
        obtain ⟨line, hline⟩ := Option.isSome_iff_exists.mp hline
        simp [hfile, hline]
  · have hlookup := hquiet _ (checkedSub_of_le hload)
    cases hfind : w.findLocation (d.getPc w - d.loadAddr) with
    | error e =>
        rw [hfind] at hlookup
        exact absurd rfl hlookup
    | ok found =>
        refine ⟨found, rfl, fun loc hloc => ?_⟩
        subst hloc
        rw [hfind] at hlookup
        cases hfile : loc.file with
        | none => simp [hfile] at hlookup
        | some file =>
            cases hline : loc.line with
            | none => simp [hfile, hline] at hlookup
            | some line => exact ⟨rfl, rfl⟩

theorem enableAt_ne_panicked (d : Debugger K) (pc : Word) (bp : BreakPoint) :
    d.enableAt w pc bp ≠ .error .panicked := by
  rw [Debugger.enableAt, BreakPoint.enable, if_neg errno_nonneg]
  exact bind_ne_panicked_iff.mpr ⟨by simp, fun _ _ => by simp⟩

theorem setBreakpoint_ne_panicked (d : Debugger K) (addr : Word) :
    d.setBreakpoint w addr ≠ .error .panicked := by
  rw [Debugger.setBreakpoint, BreakPoint.enable, if_neg errno_nonneg]
  exact bind_ne_panicked_iff.mpr ⟨by simp, fun _ _ => by simp⟩

theorem stepOverBreakpoint_ne_panicked_iff (d : Debugger K) :
    d.stepOverBreakpoint w ≠ .error .panicked ↔
      ((d.breakPoints (d.getPc w)).isSome → Showable w (stepped w d)) := by
  cases hbp : d.breakPoints (d.getPc w) with
  | none => simp [Debugger.stepOverBreakpoint_of_none hbp]
  | some bp =>
      rw [Debugger.stepOverBreakpoint_of_some hbp, bind_ne_panicked_iff, showable_iff, stepped, hbp]
      refine ⟨fun h _ => h.1, fun h => ⟨h rfl, fun d₁ _ => enableAt_ne_panicked d₁ _ _⟩⟩

theorem singleStep_ne_panicked_iff (d : Debugger K) :
    d.singleStepInstructionWithBreakpointCheck w ≠ .error .panicked ↔
      Showable w (stepped w d) := by
  rw [Debugger.singleStepInstructionWithBreakpointCheck]
  cases hbp : d.breakPoints (d.getPc w) with
  | none =>
      rw [showable_iff, stepped, hbp]
      exact Iff.rfl
  | some bp =>
      rw [Option.isSome_some, if_pos rfl, stepOverBreakpoint_ne_panicked_iff, hbp]
      simp

theorem quietLoop_iff (oldLoc : Option (String × Nat)) (fuel : Nat) (d : Debugger K) :
    QuietLoop w oldLoc fuel d ↔ Debugger.stepInLoop w oldLoc fuel d ≠ .error .panicked := by
  induction fuel generalizing d with
  | zero => simp [QuietLoop, Debugger.stepInLoop]
  | succ fuel ih =>
      rw [QuietLoop, Debugger.stepInLoop, bind_ne_panicked_iff, singleStep_ne_panicked_iff]
      refine and_congr_right fun _ => forall_congr' fun d₁ => imp_congr Iff.rfl ?_
      rw [bind_ne_panicked_iff, ← located_iff]
      refine and_congr_right fun _ => ⟨fun h found hfound => ?_, fun h loc hloc => ?_⟩
      · cases found with
        | none => simp
        | some loc =>
            obtain ⟨hopen, hrest⟩ := h loc hfound
            simp only
            split
            · rename_i hne
              exact bind_ne_panicked_iff.mpr
                ⟨(printSource_ne_panicked_iff _).mpr (hopen hne), fun _ _ => by simp⟩
            · rename_i heq
              exact (ih d₁).mp (hrest (Classical.not_not.mp heq))
      · have hround := h _ hloc
        simp only at hround
        refine ⟨fun hne => ?_, fun heq => ?_⟩
        · rw [if_pos hne] at hround
          exact (printSource_ne_panicked_iff _).mp (bind_ne_panicked_iff.mp hround).1
        · rw [if_neg (not_not_intro heq)] at hround
          exact (ih d₁).mpr hround

/-- A move panics exactly at a stop that it cannot show. -/
theorem quiet_iff (fuel : Nat) (d : Debugger K) (move : Move) :
    Quiet w fuel d move ↔ d.move w fuel move ≠ .error .panicked := by
  cases move with
  | c =>
      rw [Debugger.move, Debugger.continueExecution, bind_ne_panicked_iff,
        stepOverBreakpoint_ne_panicked_iff]
      refine and_congr_right fun _ => forall_congr' fun d₁ => ?_
      cases hcont : cont w fuel d₁.tracee with
      | none => simp
      | some t =>
          refine ⟨fun h hover => (showable_iff _).mp (h t hover rfl), fun h t' hover ht' => ?_⟩
          obtain rfl := Option.some.inj ht'
          exact (showable_iff _).mpr (h hover)
  | si => exact (singleStep_ne_panicked_iff d).symm
  | step =>
      rw [Debugger.move, Debugger.stepIn, bind_ne_panicked_iff, ← located_iff]
      exact and_congr Iff.rfl (forall_congr' fun oldLoc =>
        imp_congr Iff.rfl (quietLoop_iff oldLoc fuel d))

end

/-! ## How a line ends -/

namespace Outcome

variable {K : Type} {d : Debugger K}

/-- The session goes on: `run` is back at its prompt, or the tracee still runs. -/
def Going : Outcome K → Prop
  | .prompt _ | .waiting => True
  | .failed _ | .outOfRange _ | .panicked | .left _ => False

theorem going_prompt (d : Debugger K) : (prompt d).Going := trivial

/-- The debugger and its tracee are as they were. -/
def Leaves (d : Debugger K) : Outcome K → Prop
  | .prompt d' | .failed d' | .outOfRange d' | .left d' => d' = d
  | .panicked | .waiting => False

theorem index_going_iff {parts : List Str} {k : Nat} {next : Str → Outcome K} :
    (index d parts k next).Going ↔ ∃ part, parts[k]? = some part ∧ (next part).Going := by
  rw [index]
  cases parts[k]? with
  | none => simp [Going]
  | some part => simp

theorem convert_going_iff {α : Type} {value : Option α} {next : α → Outcome K} :
    (convert d value next).Going ↔ ∃ v, value = some v ∧ (next v).Going := by
  unfold convert
  cases value with
  | none => simp [Going]
  | some v => simp

theorem ofMove_going_iff {x : Except Stop (Debugger K)} :
    (ofMove x).Going ↔ x ≠ .error .panicked := by
  rcases x with (_ | _) | d'
  · simp [ofMove, Going]
  · simp [ofMove, Going]
  · simp [ofMove, Going]

theorem index_leaves {parts : List Str} {k : Nat} {next : Str → Outcome K}
    (hnext : ∀ part, (next part).Going ∨ (next part).Leaves d) :
    (index d parts k next).Going ∨ (index d parts k next).Leaves d := by
  rw [index]
  cases parts[k]? with
  | none => exact Or.inr rfl
  | some part => exact hnext part

theorem convert_leaves {α : Type} {value : Option α} {next : α → Outcome K}
    (hnext : ∀ v, (next v).Going ∨ (next v).Leaves d) :
    (convert d value next).Going ∨ (convert d value next).Leaves d := by
  unfold convert
  cases value with
  | none => exact Or.inr rfl
  | some v => exact hnext v

theorem index_eq_prompt {parts : List Str} {k : Nat} {next : Str → Outcome K} {d' : Debugger K}
    (h : index d parts k next = .prompt d') : ∃ part, next part = .prompt d' := by
  rw [index] at h
  split at h
  · cases h
  · exact ⟨_, h⟩

theorem convert_eq_prompt {α : Type} {value : Option α} {next : α → Outcome K}
    {d' : Debugger K} (h : convert d value next = .prompt d') : ∃ v, next v = .prompt d' := by
  unfold convert at h
  split at h
  · cases h
  · exact ⟨_, h⟩

theorem ofMove_eq_prompt {x : Except Stop (Debugger K)} {d' : Debugger K}
    (h : ofMove x = .prompt d') : x = .ok d' := by
  rcases x with (_ | _) | d₁
  · cases h
  · cases h
  · rw [Outcome.prompt.inj h]

end Outcome

theorem startsWith_disjoint {line : Str} {s t : String} (hs : startsWith line s)
    (hne : s.toList.head? ≠ t.toList.head?) (hsome : s.toList.head?.isSome)
    (htsome : t.toList.head?.isSome) : startsWith line t = false := by
  rw [startsWith] at hs ⊢
  cases line with
  | nil =>
      cases ht : t.toList with
      | nil => simp [ht] at htsome
      | cons b t => rfl
  | cons c line =>
      cases hst : s.toList with
      | nil => simp [hst] at hsome
      | cons a s =>
          cases ht : t.toList with
          | nil => simp [ht] at htsome
          | cons b t =>
              rw [hst, ht] at hne
              rw [hst] at hs
              simp only [List.isPrefixOf, Bool.and_eq_true, beq_iff_eq] at hs
              have hother : b ≠ c := fun h => hne (by rw [hs.1, h]; rfl)
              simp [List.isPrefixOf, hother]

section

variable {K : Type} {w : World K}

/-- A word that is needed: it is there, it converts, and what follows goes on. -/
theorem word_going_iff {α : Type} {parse : Str → Option α} {next : α → Outcome K}
    {d : Debugger K} {line : Str} {k : Nat} {P : Prop} (hnext : ∀ v, (next v).Going ↔ P) :
    (Outcome.index d (splitWhitespace line) k fun word => .convert d (parse word) next).Going ↔
      wordIs line k (fun word => (parse word).isSome) ∧ P := by
  rw [Outcome.index_going_iff, wordIs]
  constructor
  · rintro ⟨word, hword, hgoing⟩
    obtain ⟨v, hv, hgoing⟩ := Outcome.convert_going_iff.mp hgoing
    exact ⟨⟨word, hword, by rw [hv]; rfl⟩, (hnext v).mp hgoing⟩
  · rintro ⟨⟨word, hword, hsome⟩, hP⟩
    obtain ⟨v, hv⟩ := Option.isSome_iff_exists.mp hsome
    exact ⟨word, hword, Outcome.convert_going_iff.mpr ⟨v, hv, (hnext v).mpr hP⟩⟩

variable (fuel : Nat) (d : Debugger K) {line : Str}

/-- A line that begins with no command word of arguments is well formed. -/
theorem wellFormed_of_not_startsWith (hb : startsWith line "b " = false)
    (hr : startsWith line "r " = false) (hmemory : startsWith line "memory " = false) :
    WellFormed line where
  b h := by simp [hb] at h
  r h := by simp [hr] at h
  memory h := by simp [hmemory] at h

theorem moveOf_eq_none (hc : line ≠ "c".toList) (hsi : startsWith line "si" = false)
    (hstep : startsWith line "step" = false) : moveOf line = none := by
  rw [moveOf, if_neg hc, hsi, hstep]
  rfl

theorem move_line_going_iff (hwell : WellFormed line) {move : Move}
    (hmove : moveOf line = some move) :
    (Outcome.ofMove (d.move w fuel move)).Going ↔
      WellFormed line ∧ ∀ move, moveOf line = some move → Quiet w fuel d move := by
  rw [Outcome.ofMove_going_iff, ← quiet_iff, hmove]
  exact ⟨fun h => ⟨hwell, fun _ hsome => Option.some.inj hsome ▸ h⟩, fun h => h.2 move rfl⟩

theorem other_line_going_iff (hmove : moveOf line = none) {outcome : Outcome K}
    (hgoing : outcome.Going ↔ WellFormed line) :
    outcome.Going ↔ WellFormed line ∧ ∀ move, moveOf line = some move → Quiet w fuel d move := by
  rw [hgoing, hmove]
  exact ⟨fun h => ⟨h, fun _ hsome => (by cases hsome)⟩, And.left⟩

theorem reg_going_iff {k : Nat} {next : Reg → Outcome K} {P : Prop}
    (hnext : ∀ v, (next v).Going ↔ P) :
    (Outcome.index d (splitWhitespace line) k fun word =>
      .convert d (Reg.tryFrom (trimPercent word)) next).Going ↔ wordIs line k isReg ∧ P :=
  word_going_iff hnext

theorem address_going_iff {k : Nat} {next : Word → Outcome K} {P : Prop}
    (hnext : ∀ v, (next v).Going ↔ P) :
    (Outcome.index d (splitWhitespace line) k fun word =>
      .convert d (fromStrRadix (trimHexPrefix word)) next).Going ↔ wordIs line k isNumber ∧ P :=
  word_going_iff hnext

/-- A number that is needed, with nothing else to go wrong behind it. -/
theorem number_going_iff {k : Nat} {next : Word → Outcome K} (hnext : ∀ v, (next v).Going) :
    (Outcome.index d (splitWhitespace line) k fun word =>
      .convert d (fromStrRadix (trimHexPrefix word)) next).Going ↔ wordIs line k isNumber := by
  rw [address_going_iff d fun v => iff_true_intro (hnext v), and_true]

/-- A command word that does not begin like `si` and `step` asks for no move. -/
theorem moveOf_of_startsWith (hc : line ≠ "c".toList) {s : String} (hs : startsWith line s)
    (hfirst : s.toList.head? ≠ some 's') (hsome : s.toList.head?.isSome) :
    moveOf line = none :=
  moveOf_eq_none hc (startsWith_disjoint hs hfirst hsome rfl)
    (startsWith_disjoint hs hfirst hsome rfl)

theorem b_line_going_iff (hc : line ≠ "c".toList) (hb : startsWith line "b ") :
    (handleCommandLine w fuel d line).Going ↔ WellFormed line := by
  have hr : startsWith line "r " = false :=
    startsWith_disjoint hb (by decide) (by decide) (by decide)
  have hmemory : startsWith line "memory " = false :=
    startsWith_disjoint hb (by decide) (by decide) (by decide)
  have hwell : WellFormed line ↔ wordIs line 1 isNumber :=
    ⟨fun h => h.b hb, fun h => ⟨fun _ => h, by simp [hr], by simp [hmemory]⟩⟩
  unfold handleCommandLine
  rw [if_neg hc, if_pos hb, hwell]
  exact number_going_iff d fun addr =>
    Outcome.ofMove_going_iff.mpr (setBreakpoint_ne_panicked d addr)

theorem r_line_going_iff (hc : line ≠ "c".toList) (hb : startsWith line "b " = false)
    (hr : startsWith line "r ") :
    (handleCommandLine w fuel d line).Going ↔ WellFormed line := by
  have hmemory : startsWith line "memory " = false :=
    startsWith_disjoint hr (by decide) (by decide) (by decide)
  have hwell : WellFormed line ↔ ∃ sub, (splitWhitespace line)[1]? = some sub ∧
      (startsWith sub "read" → wordIs line 2 isReg) ∧
      (startsWith sub "write" → wordIs line 2 isReg ∧ wordIs line 3 isNumber) :=
    ⟨fun h => h.r hr, fun h => ⟨by simp [hb], fun _ => h, by simp [hmemory]⟩⟩
  unfold handleCommandLine
  rw [if_neg hc, hb, if_neg Bool.false_ne_true, if_pos hr, hwell, Outcome.index_going_iff]
  refine exists_congr fun sub => and_congr_right fun _ => ?_
  by_cases hdump : startsWith sub "dump"
  · have hread : startsWith sub "read" = false :=
      startsWith_disjoint hdump (by decide) (by decide) (by decide)
    have hwrite : startsWith sub "write" = false :=
      startsWith_disjoint hdump (by decide) (by decide) (by decide)
    rw [if_pos hdump, hread, hwrite]
    exact ⟨fun _ => ⟨fun h => (by cases h), fun h => (by cases h)⟩, fun _ => trivial⟩
  rw [if_neg hdump]
  by_cases hread : startsWith sub "read"
  · have hwrite : startsWith sub "write" = false :=
      startsWith_disjoint hread (by decide) (by decide) (by decide)
    rw [if_pos hread, hwrite]
    refine (reg_going_iff d fun _ => iff_true_intro (Outcome.going_prompt d)).trans ?_
    exact ⟨fun h => ⟨fun _ => h.1, fun h => (by cases h)⟩, fun h => ⟨h.1 hread, trivial⟩⟩
  rw [if_neg hread]
  by_cases hwrite : startsWith sub "write"
  · rw [if_pos hwrite]
    refine (reg_going_iff d fun _ =>
      number_going_iff d fun _ => Outcome.going_prompt _).trans ?_
    exact ⟨fun h => ⟨fun h' => absurd h' hread, fun _ => h⟩, fun h => h.2 hwrite⟩
  rw [if_neg hwrite]
  exact ⟨fun _ => ⟨fun h => absurd h hread, fun h => absurd h hwrite⟩, fun _ => trivial⟩

theorem memory_line_going_iff (hc : line ≠ "c".toList) (hb : startsWith line "b " = false)
    (hr : startsWith line "r " = false) (hmemory : startsWith line "memory ") :
    (handleCommandLine w fuel d line).Going ↔ WellFormed line := by
  have hwell : WellFormed line ↔ ∃ sub, (splitWhitespace line)[1]? = some sub ∧
      (startsWith sub "read" → wordIs line 2 isNumber) ∧
      (startsWith sub "write" → wordIs line 2 isNumber ∧ wordIs line 3 isNumber) :=
    ⟨fun h => h.memory hmemory, fun h => ⟨by simp [hb], by simp [hr], fun _ => h⟩⟩
  unfold handleCommandLine
  rw [if_neg hc, hb, if_neg Bool.false_ne_true, hr, if_neg Bool.false_ne_true, if_pos hmemory,
    hwell, Outcome.index_going_iff]
  refine exists_congr fun sub => and_congr_right fun _ => ?_
  by_cases hread : startsWith sub "read"
  · have hwrite : startsWith sub "write" = false :=
      startsWith_disjoint hread (by decide) (by decide) (by decide)
    rw [if_pos hread, hwrite]
    refine (number_going_iff d fun _ => Outcome.going_prompt d).trans ?_
    exact ⟨fun h => ⟨fun _ => h, fun h => (by cases h)⟩, fun h => h.1 hread⟩
  rw [if_neg hread]
  by_cases hwrite : startsWith sub "write"
  · rw [if_pos hwrite]
    refine (address_going_iff d fun _ =>
      number_going_iff d fun _ => Outcome.going_prompt _).trans ?_
    exact ⟨fun h => ⟨fun h' => absurd h' hread, fun _ => h⟩, fun h => h.2 hwrite⟩
  rw [if_neg hwrite]
  exact ⟨fun _ => ⟨fun h => absurd h hread, fun h => absurd h hwrite⟩, fun _ => trivial⟩

/-- Where a line goes on: it is well formed, and the move it asks for does not panic. -/
theorem handleCommandLine_going_iff :
    (handleCommandLine w fuel d line).Going ↔
      WellFormed line ∧ ∀ move, moveOf line = some move → Quiet w fuel d move := by
  by_cases hc : line = "c".toList
  · have hwell : WellFormed line := by
      subst hc
      exact wellFormed_of_not_startsWith (by decide) (by decide) (by decide)
    rw [handleCommandLine, if_pos hc]
    exact move_line_going_iff fuel d hwell (if_pos hc)
  by_cases hb : startsWith line "b "
  · exact other_line_going_iff fuel d (moveOf_of_startsWith hc hb (by decide) rfl)
      (b_line_going_iff fuel d hc hb)
  rw [Bool.not_eq_true] at hb
  by_cases hr : startsWith line "r "
  · exact other_line_going_iff fuel d (moveOf_of_startsWith hc hr (by decide) rfl)
      (r_line_going_iff fuel d hc hb hr)
  rw [Bool.not_eq_true] at hr
  by_cases hmemory : startsWith line "memory "
  · exact other_line_going_iff fuel d (moveOf_of_startsWith hc hmemory (by decide) rfl)
      (memory_line_going_iff fuel d hc hb hr hmemory)
  rw [Bool.not_eq_true] at hmemory
  have hwell : WellFormed line := wellFormed_of_not_startsWith hb hr hmemory
  unfold handleCommandLine
  rw [if_neg hc, hb, if_neg Bool.false_ne_true, hr, if_neg Bool.false_ne_true, hmemory,
    if_neg Bool.false_ne_true]
  by_cases hsi : startsWith line "si"
  · rw [if_pos hsi]
    exact move_line_going_iff fuel d hwell (by rw [moveOf, if_neg hc, if_pos hsi])
  rw [if_neg hsi]
  by_cases hstep : startsWith line "step"
  · rw [if_pos hstep]
    exact move_line_going_iff fuel d hwell (by rw [moveOf, if_neg hc, if_neg hsi, if_pos hstep])
  rw [if_neg hstep]
  refine other_line_going_iff fuel d
    (moveOf_eq_none hc (by simpa using hsi) (by simpa using hstep)) ?_
  exact ⟨fun _ => hwell, fun _ => trivial⟩

end

/-! ## The session -/

section

variable {K : Type} {w : World K} (fuel : Nat) (d : Debugger K) {line : Str}

/-- Nothing is written before the last word has been converted. -/
theorem handleCommandLine_leaves (hmalformed : ¬ WellFormed line) :
    (handleCommandLine w fuel d line).Leaves d := by
  have hnot : ¬ (handleCommandLine w fuel d line).Going := fun hgoing =>
    hmalformed ((handleCommandLine_going_iff fuel d).mp hgoing).1
  have hc : line ≠ "c".toList := by
    rintro rfl
    exact hmalformed (wellFormed_of_not_startsWith (by decide) (by decide) (by decide))
  refine Or.resolve_left ?_ hnot
  unfold handleCommandLine
  rw [if_neg hc]
  by_cases hb : startsWith line "b "
  · rw [if_pos hb]
    exact Outcome.index_leaves fun _ => Outcome.convert_leaves fun addr =>
      Or.inl (Outcome.ofMove_going_iff.mpr (setBreakpoint_ne_panicked d addr))
  rw [if_neg hb]
  by_cases hr : startsWith line "r "
  · rw [if_pos hr]
    refine Outcome.index_leaves fun sub => ?_
    split
    · exact Or.inl trivial
    split
    · exact Outcome.index_leaves fun _ => Outcome.convert_leaves fun _ => Or.inl trivial
    split
    · exact Outcome.index_leaves fun _ => Outcome.convert_leaves fun _ =>
        Outcome.index_leaves fun _ => Outcome.convert_leaves fun _ => Or.inl trivial
    · exact Or.inl trivial
  rw [if_neg hr]
  by_cases hmemory : startsWith line "memory "
  · rw [if_pos hmemory]
    refine Outcome.index_leaves fun sub => ?_
    split
    · exact Outcome.index_leaves fun _ => Outcome.convert_leaves fun _ => Or.inl trivial
    split
    · exact Outcome.index_leaves fun _ => Outcome.convert_leaves fun _ =>
        Outcome.index_leaves fun _ => Outcome.convert_leaves fun _ => Or.inl trivial
    · exact Or.inl trivial
  · exact absurd (wellFormed_of_not_startsWith (by simpa using hb) (by simpa using hr)
      (by simpa using hmemory)) hmalformed

theorem handleLine_of_move {move : Move} {d' : Debugger K}
    (h : d.move w fuel move = .ok d') : handleLine w fuel d (.move move) = .ok (d', .nothing) :=
  bind_eq_ok.mpr ⟨d', h, rfl⟩

/-- A line that goes on is a command of the debugger, or is ignored. -/
theorem handleCommandLine_refines {d' : Debugger K}
    (h : handleCommandLine w fuel d line = .prompt d') :
    d' = d ∨ ∃ cmd printed, handleLine w fuel d cmd = .ok (d', printed) := by
  unfold handleCommandLine at h
  split at h
  · exact Or.inr ⟨.move .c, _, handleLine_of_move fuel d (Outcome.ofMove_eq_prompt h)⟩
  split at h
  · obtain ⟨_, h⟩ := Outcome.index_eq_prompt h
    obtain ⟨addr, h⟩ := Outcome.convert_eq_prompt h
    have hset := Outcome.ofMove_eq_prompt h
    exact Or.inr ⟨.b addr, _, bind_eq_ok.mpr ⟨d', hset, rfl⟩⟩
  split at h
  · obtain ⟨sub, h⟩ := Outcome.index_eq_prompt h
    split at h
    · exact Or.inl (Outcome.prompt.inj h).symm
    split at h
    · obtain ⟨_, h⟩ := Outcome.index_eq_prompt h
      obtain ⟨_, h⟩ := Outcome.convert_eq_prompt h
      exact Or.inl (Outcome.prompt.inj h).symm
    split at h
    · obtain ⟨_, h⟩ := Outcome.index_eq_prompt h
      obtain ⟨reg, h⟩ := Outcome.convert_eq_prompt h
      obtain ⟨_, h⟩ := Outcome.index_eq_prompt h
      obtain ⟨val, h⟩ := Outcome.convert_eq_prompt h
      exact Or.inr ⟨.rWrite reg val, _, by rw [← Outcome.prompt.inj h]; rfl⟩
    · exact Or.inl (Outcome.prompt.inj h).symm
  split at h
  · obtain ⟨sub, h⟩ := Outcome.index_eq_prompt h
    split at h
    · obtain ⟨_, h⟩ := Outcome.index_eq_prompt h
      obtain ⟨_, h⟩ := Outcome.convert_eq_prompt h
      exact Or.inl (Outcome.prompt.inj h).symm
    split at h
    · obtain ⟨_, h⟩ := Outcome.index_eq_prompt h
      obtain ⟨addr, h⟩ := Outcome.convert_eq_prompt h
      obtain ⟨_, h⟩ := Outcome.index_eq_prompt h
      obtain ⟨data, h⟩ := Outcome.convert_eq_prompt h
      exact Or.inr ⟨.memoryWrite addr data, _, by rw [← Outcome.prompt.inj h]; rfl⟩
    · exact Or.inl (Outcome.prompt.inj h).symm
  split at h
  · exact Or.inr ⟨.move .si, _, handleLine_of_move fuel d (Outcome.ofMove_eq_prompt h)⟩
  split at h
  · exact Or.inr ⟨.move .step, _, handleLine_of_move fuel d (Outcome.ofMove_eq_prompt h)⟩
  · exact Or.inl (Outcome.prompt.inj h).symm

/-- Every line is well formed, and no move panics, in the state in which the
line is typed. -/
def Meets (w : World K) (fuel : Nat) : Debugger K → List Str → Prop
  | _, [] => True
  | d, line :: rest => WellFormed line ∧
      (∀ move, moveOf line = some move → Quiet w fuel d move) ∧
      ∀ d', handleCommandLine w fuel d line = .prompt d' → Meets w fuel d' rest

theorem run_going_iff {ls : List Str}
    (hlines : ∀ line ∈ ls, line ≠ "exit".toList ∧ line ≠ "quit".toList) :
    (run w fuel d ls).Going ↔ Meets w fuel d ls := by
  induction ls generalizing d with
  | nil => exact ⟨fun _ => trivial, fun _ => trivial⟩
  | cons line rest ih =>
      obtain ⟨hexit, hquit⟩ := hlines line List.mem_cons_self
      have hgoing : (handleCommandLine w fuel d line).Going ↔ _ :=
        handleCommandLine_going_iff fuel d
      rw [run, if_neg (not_or.mpr ⟨hexit, hquit⟩), Meets, ← and_assoc, ← hgoing]
      cases hline : handleCommandLine w fuel d line with
      | prompt d₁ =>
          refine (ih d₁ fun line hline => hlines line (List.mem_cons_of_mem _ hline)).trans ?_
          refine ⟨fun h => ⟨trivial, fun d' hd' => ?_⟩, fun h => h.2 d₁ rfl⟩
          cases hd'
          exact h
      | waiting => exact ⟨fun _ => ⟨trivial, fun d' hd' => (by cases hd')⟩, fun _ => trivial⟩
      | failed | outOfRange | panicked | left => exact ⟨fun h => (by cases h), fun h => h.1⟩

/-- The session survives: `run` comes back to its prompt after every line, and a
malformed line changes nothing. -/
structure Survives (w : World K) (fuel : Nat) (d : Debugger K) (ls : List Str) : Prop where
  returns : (run w fuel d ls).Going
  kept : ∀ line ∈ ls, ¬ WellFormed line → ∀ d₁, (handleCommandLine w fuel d₁ line).Leaves d₁

/-- The session survives exactly the lines that are well formed and whose moves
stop where the source can be shown. -/
theorem session_survives_iff {ls : List Str}
    (hlines : ∀ line ∈ ls, line ≠ "exit".toList ∧ line ≠ "quit".toList) :
    Survives w fuel d ls ↔ Meets w fuel d ls :=
  ⟨fun h => (run_going_iff fuel d hlines).mp h.returns,
    fun h => ⟨(run_going_iff fuel d hlines).mpr h,
      fun _ _ hmalformed d₁ => handleCommandLine_leaves fuel d₁ hmalformed⟩⟩

/-- Typed sessions stay within the sessions of commands. -/
theorem run_reachable {start : Machine K} {ls : List Str} {d' : Debugger K}
    (hreach : (lines w start).Reachable d) (hrun : run w fuel d ls = .prompt d') :
    (lines w start).Reachable d' := by
  induction ls generalizing d with
  | nil => exact Outcome.prompt.inj hrun ▸ hreach
  | cons line rest ih =>
      rw [run] at hrun
      split at hrun
      · cases hrun
      · cases hline : handleCommandLine w fuel d line with
        | prompt d₁ =>
            rw [hline] at hrun
            obtain rfl | ⟨cmd, printed, hcmd⟩ := handleCommandLine_refines fuel d hline
            · exact ih _ hreach hrun
            · exact ih _ (hreach.step (show (lines w start).step d cmd d₁ from
                ⟨fuel, printed, hcmd⟩)) hrun
        | failed | outOfRange | panicked | waiting | left =>
            rw [hline] at hrun
            cases hrun

end

/-- The line `b 64` and a line that is ignored. -/
theorem session_survives_iff_sample :
    Survives ShadowMemory.sampleWorld 1
        (ShadowMemory.sampleDebugger ShadowMemory.sampleMemory fun _ => none)
        ["b 64".toList, "help".toList] ↔
      Meets ShadowMemory.sampleWorld 1
        (ShadowMemory.sampleDebugger ShadowMemory.sampleMemory fun _ => none)
        ["b 64".toList, "help".toList] :=
  session_survives_iff 1 _ (by decide)

/-- `b` with a blank behind it and nothing else panics; and `b xyz` ends the session. -/
theorem malformed_lines_end_session :
    run ShadowMemory.sampleWorld 1
        (ShadowMemory.sampleDebugger ShadowMemory.sampleMemory fun _ => none) ["b ".toList] =
      .outOfRange (ShadowMemory.sampleDebugger ShadowMemory.sampleMemory fun _ => none) ∧
    run ShadowMemory.sampleWorld 1
        (ShadowMemory.sampleDebugger ShadowMemory.sampleMemory fun _ => none) ["b xyz".toList] =
      .failed (ShadowMemory.sampleDebugger ShadowMemory.sampleMemory fun _ => none) ∧
    ¬ Survives ShadowMemory.sampleWorld 1
        (ShadowMemory.sampleDebugger ShadowMemory.sampleMemory fun _ => none) ["b ".toList] ∧
    ¬ Survives ShadowMemory.sampleWorld 1
        (ShadowMemory.sampleDebugger ShadowMemory.sampleMemory fun _ => none)
        ["b xyz".toList] := by
  refine ⟨rfl, rfl, fun h => ?_, fun h => ?_⟩
  · exact h.returns
  · exact h.returns

end CsInternal.MiniGdb
