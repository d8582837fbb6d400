import CsInternal.MiniGdb.CommandLine

/-!
# What the debugger prints, typed back

The lines that `handle_command` prints for registers, memory and breakpoints, and what
comes of them when a user types their names and numbers into a later command.
-/

namespace CsInternal.MiniGdb

open CsInternal.Library.ByteMemory

/-- `{:x}` -/
def lowerHex (v : Word) : Str := Nat.toDigits 16 v.toNat

/-- `{:016x}` -/
def paddedHex (v : Word) : Str := (lowerHex v).leftpad 16 '0'

/-- `max_width` in `dump_registers` -/
def maxWidth : Nat := (Reg.all.map fun reg => reg.name.toList.length).foldl max 0

/-- `{:max_width$}: 0x{:016x}` -/
def dumpLine (reg : Reg) (val : Word) : Str :=
  reg.name.toList.rightpad maxWidth ' ' ++ ": 0x".toList ++ paddedHex val

/-- `{}: 0x{:x}`, which `r read` prints -/
def registerLine (reg : Reg) (val : Word) : Str :=
  reg.name.toList ++ ": 0x".toList ++ lowerHex val

/-- `0x{:x}: 0x{:x}`, which `memory read` prints -/
def memoryLine (addr data : Word) : Str :=
  "0x".toList ++ lowerHex addr ++ ": 0x".toList ++ lowerHex data

/-- `breakpoint: 0x{:x}, enabled: {}`, which `b` prints for every entry of the table -/
def breakpointLine (addr : Word) (bp : BreakPoint) : Str :=
  "breakpoint: 0x".toList ++ lowerHex addr ++ ", enabled: ".toList ++ (toString bp.enabled).toList

section

variable {K : Type} (w : World K)

def dumpRegisters (d : Debugger K) : List Str :=
  Reg.all.map fun reg => dumpLine reg (getRegs w d.tracee reg)

end

/-- What stands in front of the colon, but for the blanks. -/
def beforeColon (line : Str) : Str := line.takeWhile fun c => c ≠ ':' ∧ c ≠ ' '

/-- What stands behind the colon and its blank. -/
def afterColon (line : Str) : Str := (line.dropWhile (· ≠ ':')).drop 2

def retypeRegister (line : Str) : Str :=
  "r write ".toList ++ beforeColon line ++ ' ' :: afterColon line

def retypeMemory (line : Str) : Str :=
  "memory write ".toList ++ beforeColon line ++ ' ' :: afterColon line

def retypeBreakpoint (line : Str) : Str :=
  "b ".toList ++ (afterColon line).takeWhile (· ≠ ',')

/-- The text consists of hexadecimal digits that stand for the number. -/
structure HexText (s : Str) (v : Word) : Prop where
  nonempty : s ≠ []
  digits : ∀ c ∈ s, (toDigit c).isSome
  value : digitsFrom s 0 = some v

theorem toDigit_digitChar {n : Nat} (hn : n < 16) : toDigit n.digitChar = some n := by
  have hall : ∀ m : Fin 16, toDigit m.val.digitChar = some m.val := by decide
  exact hall ⟨n, hn⟩

theorem digit_of_mem_toDigits {n : Nat} {c : Char} (hc : c ∈ Nat.toDigits 16 n) :
    (toDigit c).isSome := by
  induction n using Nat.strongRecOn with
  | ind n ih =>
      by_cases hsmall : n < 16
      · rw [Nat.toDigits_of_lt_base hsmall, List.mem_singleton] at hc
        rw [hc, toDigit_digitChar hsmall]
        rfl
      · rw [Nat.toDigits_of_base_le (by decide) (Nat.le_of_not_lt hsmall), List.mem_append,
          List.mem_singleton] at hc
        obtain hearlier | hlast := hc
        · exact ih (n / 16) (by omega) hearlier
        · rw [hlast, toDigit_digitChar (Nat.mod_lt n (by decide))]
          rfl

/-- Reading the digits of a number that 64 bits hold gives the number. -/
theorem digitsFrom_toDigits {n : Nat} (hn : n < 2 ^ 64) (rest : Str) :
    digitsFrom (Nat.toDigits 16 n ++ rest) 0 = digitsFrom rest n := by
  induction n using Nat.strongRecOn generalizing rest with
  | ind n ih =>
      by_cases hsmall : n < 16
      · rw [Nat.toDigits_of_lt_base hsmall, List.singleton_append, digitsFrom,
          toDigit_digitChar hsmall]
        simp only [Nat.zero_mul, Nat.zero_add, if_pos hn]
      · have hmod : n % 16 < 16 := Nat.mod_lt n (by decide)
        have hwhole : n / 16 * 16 + n % 16 = n := by omega
        rw [Nat.toDigits_of_base_le (by decide) (Nat.le_of_not_lt hsmall), List.append_assoc,
          ih (n / 16) (by omega) (by omega), List.singleton_append, digitsFrom,
          toDigit_digitChar hmod]
        simp only [hwhole, if_pos hn]

theorem digitsFrom_zeros (k : Nat) (s : Str) :
    digitsFrom (List.replicate k '0' ++ s) 0 = digitsFrom s 0 := by
  induction k with
  | zero => rfl
  | succ k ih =>
      rw [List.replicate_succ, List.cons_append, digitsFrom]
      exact ih

theorem hexText_lowerHex (v : Word) : HexText (lowerHex v) v where
  nonempty := Nat.toDigits_ne_nil
  digits _ hc := digit_of_mem_toDigits hc
  value := by
    have hread := digitsFrom_toDigits v.isLt []
    rw [List.append_nil] at hread
    rw [lowerHex, hread, digitsFrom, BitVec.ofNat_toNat, BitVec.setWidth_eq]

theorem hexText_paddedHex (v : Word) : HexText (paddedHex v) v where
  nonempty := by
    rw [paddedHex, List.leftpad]
    exact List.append_ne_nil_of_right_ne_nil _ (hexText_lowerHex v).nonempty
  digits c hc := by
    rw [paddedHex, List.leftpad, List.mem_append] at hc
    obtain hzero | hdigit := hc
    · rw [List.eq_of_mem_replicate hzero]
      rfl
    · exact (hexText_lowerHex v).digits c hdigit
  value := by
    rw [paddedHex, List.leftpad, digitsFrom_zeros]
    exact (hexText_lowerHex v).value

variable {s : Str} {v : Word}

theorem HexText.not_mem (h : HexText s v) {c : Char} (hc : toDigit c = none) : c ∉ s := by
  intro hmem
  have hsome := h.digits c hmem
  rw [hc] at hsome
  cases hsome

/-- Nothing is trimmed from digits. -/
theorem HexText.trimHexPrefix_eq (h : HexText s v) : trimHexPrefix s = s := by
  rw [trimHexPrefix.eq_def]
  split
  · exact absurd (List.mem_cons_of_mem _ List.mem_cons_self) (h.not_mem (c := 'x') (by decide))
  · rfl

theorem HexText.fromStrRadix_eq (h : HexText s v) : fromStrRadix s = some v := by
  have hplus : s.head? ≠ some '+' := fun hhead =>
    h.not_mem (c := '+') (by decide) (List.mem_of_mem_head? hhead)
  rw [fromStrRadix]
  simp only [if_neg hplus, if_neg h.nonempty, h.value]

theorem HexText.number (h : HexText s v) :
    fromStrRadix (trimHexPrefix ('0' :: 'x' :: s)) = some v := by
  rw [trimHexPrefix, h.trimHexPrefix_eq, h.fromStrRadix_eq]

/-- Text without blanks. -/
structure IsWord (s : Str) : Prop where
  nonempty : s ≠ []
  solid : ∀ c ∈ s, isWhitespace c = false

theorem wordsFrom_word {word : Str} (hsolid : ∀ c ∈ word, isWhitespace c = false)
    (rest begun : Str) :
    wordsFrom (word ++ rest) begun = wordsFrom rest (word.reverse ++ begun) := by
  induction word generalizing begun with
  | nil => rfl
  | cons c word ih =>
      have hc := hsolid c List.mem_cons_self
      rw [List.cons_append, wordsFrom, hc, if_neg Bool.false_ne_true,
        ih (fun c hc => hsolid c (List.mem_cons_of_mem _ hc)), List.reverse_cons,
        List.append_assoc, List.singleton_append]

theorem IsWord.reverse_ne_nil {word : Str} (h : IsWord word) : word.reverse ≠ [] :=
  fun hnil => h.nonempty (List.reverse_eq_nil_iff.mp hnil)

/-- A word and a blank. -/
theorem IsWord.splitWhitespace_cons {word : Str} (h : IsWord word) (rest : Str) :
    splitWhitespace (word ++ ' ' :: rest) = word :: splitWhitespace rest := by
  have hblank : isWhitespace ' ' = true := by decide
  rw [splitWhitespace, wordsFrom_word h.solid, List.append_nil, wordsFrom, if_pos hblank,
    if_neg h.reverse_ne_nil, List.reverse_reverse]
  rfl

theorem IsWord.splitWhitespace_last {word : Str} (h : IsWord word) :
    splitWhitespace word = [word] := by
  have hread := wordsFrom_word h.solid [] []
  rw [List.append_nil, List.append_nil] at hread
  rw [splitWhitespace, hread]
  obtain ⟨c, rest, hcons⟩ := List.exists_cons_of_ne_nil h.reverse_ne_nil
  rw [hcons, wordsFrom, ← hcons, List.reverse_reverse]
  exact List.cons_ne_nil c rest

theorem isWhitespace_of_toDigit {c : Char} (hdigit : (toDigit c).isSome) :
    isWhitespace c = false := by
  cases hblank : isWhitespace c with
  | false => rfl
  | true =>
      exfalso
      simp only [toDigit, Char.le_def, UInt32.le_iff_toNat_le] at hdigit
      simp only [isWhitespace, Char.toNat, Bool.or_eq_true, Bool.and_eq_true, decide_eq_true_eq,
        beq_iff_eq] at hblank
      have hzero : '0'.val.toNat = 48 := rfl
      have hnine : '9'.val.toNat = 57 := rfl
      have ha : 'a'.val.toNat = 97 := rfl
      have hf : 'f'.val.toNat = 102 := rfl
      have hA : 'A'.val.toNat = 65 := rfl
      have hF : 'F'.val.toNat = 70 := rfl
      rw [hzero, hnine, ha, hf, hA, hF] at hdigit
      split at hdigit
      · omega
      · split at hdigit
        · omega
        · split at hdigit
          · omega
          · cases hdigit

theorem isWord_number (h : HexText s v) : IsWord ('0' :: 'x' :: s) where
  nonempty := List.cons_ne_nil _ _
  solid c hc := by
    rcases List.mem_cons.mp hc with rfl | hc
    · rfl
    · rcases List.mem_cons.mp hc with rfl | hc
      · rfl
      · exact isWhitespace_of_toDigit (h.digits c hc)

/-- `all` is what evaluates. -/
theorem IsWord.of_all {word : Str} (hne : word ≠ [])
    (hall : (word.all fun c => !isWhitespace c) = true) : IsWord word where
  nonempty := hne
  solid c hc := by simpa using List.all_eq_true.mp hall c hc

theorem ne_colon_of_all {text : Str} (hall : (text.all fun c => c != ':') = true) :
    ∀ c ∈ text, c ≠ ':' := fun c hc => bne_iff_ne.mp (List.all_eq_true.mp hall c hc)

theorem isWord_name (reg : Reg) : IsWord reg.name.toList := by
  cases reg <;> exact .of_all (by decide) (by decide)

theorem not_colon_of_name {reg : Reg} : ∀ c ∈ reg.name.toList, c ≠ ':' := by
  refine ne_colon_of_all ?_
  cases reg <;> decide

theorem Reg.tryFrom_name (reg : Reg) : Reg.tryFrom (trimPercent reg.name.toList) = some reg := by
  cases reg <;> decide

theorem Reg.mem_all (reg : Reg) : reg ∈ Reg.all := by
  cases reg <;> decide

theorem colonHex_append (rest : Str) :
    ": 0x".toList ++ rest = ':' :: ' ' :: '0' :: 'x' :: rest := by
  have htext : ": 0x".toList = [':', ' ', '0', 'x'] := rfl
  rw [htext]
  simp only [List.cons_append, List.nil_append]

theorem hex_append (rest : Str) : "0x".toList ++ rest = '0' :: 'x' :: rest := by
  have htext : "0x".toList = ['0', 'x'] := rfl
  rw [htext]
  simp only [List.cons_append, List.nil_append]

theorem breakpointHex_toList : "breakpoint: 0x".toList = "breakpoint".toList ++ ": 0x".toList := rfl

theorem beforeColon_append {word : Str} (hword : IsWord word) (hcolon : ∀ c ∈ word, c ≠ ':')
    {c : Char} (hc : c = ':' ∨ c = ' ') (rest : Str) : beforeColon (word ++ c :: rest) = word := by
  have hpass : ∀ c ∈ word, decide (c ≠ ':' ∧ c ≠ ' ') = true := by
    intro c hmem
    have hblank : c ≠ ' ' := by
      rintro rfl
      exact absurd (hword.solid ' ' hmem) (by decide)
    exact decide_eq_true ⟨hcolon c hmem, hblank⟩
  have hstop : ¬ decide (c ≠ ':' ∧ c ≠ ' ') = true := by
    obtain rfl | rfl := hc
    · decide
    · decide
  rw [beforeColon, List.takeWhile_append_of_pos hpass, List.takeWhile_cons, if_neg hstop,
    List.append_nil]

theorem afterColon_append {head : Str} (hcolon : ∀ c ∈ head, c ≠ ':') (rest : Str) :
    afterColon (head ++ ':' :: ' ' :: rest) = rest := by
  have hpass : ∀ c ∈ head, decide (c ≠ ':') = true := fun c hmem => decide_eq_true (hcolon c hmem)
  rw [afterColon, List.dropWhile_append_of_pos hpass, List.dropWhile_cons_of_neg (by decide)]
  rfl

/-- What is no digit and no `x` does not stand in a number. -/
theorem ne_of_number (h : HexText s v) {other : Char} (hother : toDigit other = none)
    (hx : other ≠ 'x') : ∀ c ∈ '0' :: 'x' :: s, c ≠ other := by
  rintro c hmem rfl
  simp only [List.mem_cons] at hmem
  obtain rfl | rfl | hdigit := hmem
  · cases hother
  · exact hx rfl
  · exact h.not_mem hother hdigit

theorem not_colon_of_number (h : HexText s v) : ∀ c ∈ '0' :: 'x' :: s, c ≠ ':' :=
  ne_of_number h (by decide) (by decide)

theorem retypeRegister_dumpLine (reg : Reg) (val : Word) :
    retypeRegister (dumpLine reg val) =
      "r write ".toList ++ reg.name.toList ++ ' ' :: '0' :: 'x' :: paddedHex val := by
  have hpad : ∀ c ∈ reg.name.toList.rightpad maxWidth ' ', c ≠ ':' := by
    intro c hc
    rw [List.rightpad, List.mem_append] at hc
    obtain hname | hblank := hc
    · exact not_colon_of_name c hname
    · rw [List.eq_of_mem_replicate hblank]
      decide
  have hbehind : afterColon (dumpLine reg val) = '0' :: 'x' :: paddedHex val := by
    rw [dumpLine, List.append_assoc, colonHex_append]
    exact afterColon_append hpad _
  have hfront : beforeColon (dumpLine reg val) = reg.name.toList := by
    rw [dumpLine, List.append_assoc, colonHex_append, List.rightpad, List.append_assoc]
    cases maxWidth - reg.name.toList.length with
    | zero => exact beforeColon_append (isWord_name reg) not_colon_of_name (.inl rfl) _
    | succ k => exact beforeColon_append (isWord_name reg) not_colon_of_name (.inr rfl) _
  unfold retypeRegister
  rw [hbehind, hfront]

theorem retypeRegister_registerLine (reg : Reg) (val : Word) :
    retypeRegister (registerLine reg val) =
      "r write ".toList ++ reg.name.toList ++ ' ' :: '0' :: 'x' :: lowerHex val := by
  have hbehind : afterColon (registerLine reg val) = '0' :: 'x' :: lowerHex val := by
    rw [registerLine, List.append_assoc, colonHex_append]
    exact afterColon_append not_colon_of_name _
  have hfront : beforeColon (registerLine reg val) = reg.name.toList := by
    rw [registerLine, List.append_assoc, colonHex_append]
    exact beforeColon_append (isWord_name reg) not_colon_of_name (.inl rfl) _
  unfold retypeRegister
  rw [hbehind, hfront]

theorem retypeMemory_memoryLine (addr data : Word) :
    retypeMemory (memoryLine addr data) = "memory write ".toList ++ '0' :: 'x' :: lowerHex addr ++
      ' ' :: '0' :: 'x' :: lowerHex data := by
  have haddr := hexText_lowerHex addr
  have hline : memoryLine addr data =
      ('0' :: 'x' :: lowerHex addr) ++ ':' :: ' ' :: '0' :: 'x' :: lowerHex data := by
    rw [memoryLine, List.append_assoc, List.append_assoc, hex_append, colonHex_append]
    simp only [List.cons_append]
  unfold retypeMemory
  rw [hline, beforeColon_append (isWord_number haddr) (not_colon_of_number haddr) (.inl rfl),
    afterColon_append (not_colon_of_number haddr), List.append_assoc]

theorem retypeBreakpoint_breakpointLine (addr : Word) (bp : BreakPoint) :
    retypeBreakpoint (breakpointLine addr bp) = "b ".toList ++ '0' :: 'x' :: lowerHex addr := by
  have haddr := hexText_lowerHex addr
  have hline : breakpointLine addr bp = "breakpoint".toList ++ ':' :: ' ' ::
      ('0' :: 'x' :: lowerHex addr ++ (", enabled: ".toList ++ (toString bp.enabled).toList)) := by
    unfold breakpointLine
    rw [breakpointHex_toList]
    simp only [List.append_assoc, colonHex_append, List.cons_append]
  have hpass : ∀ c ∈ '0' :: 'x' :: lowerHex addr, decide (c ≠ ',') = true := fun c hmem =>
    decide_eq_true (ne_of_number haddr (by decide) (by decide) c hmem)
  unfold retypeBreakpoint
  rw [hline, afterColon_append (ne_colon_of_all (by decide)), List.takeWhile_append_of_pos hpass]
  exact congrArg _ (List.append_nil _)

/-! ## The commands they are -/

section

variable {K : Type} {w : World K} (fuel : Nat) (d : Debugger K)

theorem Outcome.index_some {parts : List Str} {k : Nat} {part : Str} {next : Str → Outcome K}
    (hpart : parts[k]? = some part) : Outcome.index d parts k next = next part := by
  rw [Outcome.index, hpart]

theorem Outcome.convert_some {α : Type} {value : Option α} {a : α} {next : α → Outcome K}
    (hvalue : value = some a) : Outcome.convert d value next = next a := by
  subst hvalue
  rfl

theorem startsWith_append (text : String) (rest : Str) :
    startsWith (text.toList ++ rest) text = true :=
  List.isPrefixOf_iff_prefix.mpr (List.prefix_append _ _)

theorem startsWith_rWrite (rest : Str) : startsWith ("r write ".toList ++ rest) "r " = true := by
  have htext : "r write ".toList = "r ".toList ++ "write ".toList := rfl
  rw [htext, List.append_assoc]
  exact startsWith_append "r " _

theorem startsWith_memoryWrite (rest : Str) :
    startsWith ("memory write ".toList ++ rest) "memory " = true := by
  have htext : "memory write ".toList = "memory ".toList ++ "write ".toList := rfl
  rw [htext, List.append_assoc]
  exact startsWith_append "memory " _

variable {line : Str}

/-- A line that begins with another command word than `c` is not `c`. -/
theorem ne_c_of_startsWith {text : String} (hstart : startsWith line text = true)
    (hc : startsWith "c".toList text = false) : line ≠ "c".toList := by
  rintro rfl
  exact Bool.false_ne_true (hc.symm.trans hstart)

/-- `r write`, with its words as they are after the split. -/
theorem handleCommandLine_rWrite {reg : Reg} (hstart : startsWith line "r " = true)
    (hparts : splitWhitespace line =
      ["r".toList, "write".toList, reg.name.toList, '0' :: 'x' :: s]) (h : HexText s v) :
    handleCommandLine w fuel d line = .prompt (d.setReg reg v) := by
  have hb : startsWith line "b " = false :=
    startsWith_disjoint hstart (by decide) (by decide) (by decide)
  unfold handleCommandLine
  rw [if_neg (ne_c_of_startsWith hstart (by decide)), if_neg (Bool.eq_false_iff.mp hb),
    if_pos hstart, hparts, Outcome.index_some d rfl, if_neg (by decide), if_neg (by decide),
    if_pos (by decide), Outcome.index_some d rfl, Outcome.convert_some d (Reg.tryFrom_name reg),
    Outcome.index_some d rfl, Outcome.convert_some d h.number]

/-- `memory write`, likewise. -/
theorem handleCommandLine_memoryWrite {addr data : Str} {a b : Word}
    (hstart : startsWith line "memory " = true)
    (hparts : splitWhitespace line =
      ["memory".toList, "write".toList, '0' :: 'x' :: addr, '0' :: 'x' :: data])
    (haddr : HexText addr a) (hdata : HexText data b) :
    handleCommandLine w fuel d line = .prompt (d.writeMemory w a b) := by
  have hb : startsWith line "b " = false :=
    startsWith_disjoint hstart (by decide) (by decide) (by decide)
  have hr : startsWith line "r " = false :=
    startsWith_disjoint hstart (by decide) (by decide) (by decide)
  unfold handleCommandLine
  rw [if_neg (ne_c_of_startsWith hstart (by decide)), if_neg (Bool.eq_false_iff.mp hb),
    if_neg (Bool.eq_false_iff.mp hr), if_pos hstart, hparts, Outcome.index_some d rfl,
    if_neg (by decide), if_pos (by decide), Outcome.index_some d rfl,
    Outcome.convert_some d haddr.number, Outcome.index_some d rfl,
    Outcome.convert_some d hdata.number]

theorem handleCommandLine_b {addr : Str} {a : Word} (hstart : startsWith line "b " = true)
    (hparts : splitWhitespace line = ["b".toList, '0' :: 'x' :: addr]) (haddr : HexText addr a) :
    handleCommandLine w fuel d line = .ofMove (d.setBreakpoint w a) := by
  unfold handleCommandLine
  rw [if_neg (ne_c_of_startsWith hstart (by decide)), if_pos hstart, hparts,
    Outcome.index_some d rfl, Outcome.convert_some d haddr.number]

theorem handleCommandLine_register (reg : Reg) (h : HexText s v) :
    handleCommandLine w fuel d ("r write ".toList ++ reg.name.toList ++ ' ' :: '0' :: 'x' :: s) =
      .prompt (d.setReg reg v) := by
  have htext : "r write ".toList = "r".toList ++ ' ' :: ("write".toList ++ [' ']) := rfl
  have hr : IsWord "r".toList := .of_all (by decide) (by decide)
  have hwrite : IsWord "write".toList := .of_all (by decide) (by decide)
  refine handleCommandLine_rWrite fuel d ?_ ?_ h
  · rw [List.append_assoc]
    exact startsWith_rWrite _
  · rw [htext]
    simp only [List.append_assoc, List.cons_append, List.nil_append]
    rw [hr.splitWhitespace_cons, hwrite.splitWhitespace_cons,
      (isWord_name reg).splitWhitespace_cons, (isWord_number h).splitWhitespace_last]

theorem handleCommandLine_memory {addr data : Str} {a b : Word} (haddr : HexText addr a)
    (hdata : HexText data b) :
    handleCommandLine w fuel d
        ("memory write ".toList ++ '0' :: 'x' :: addr ++ ' ' :: '0' :: 'x' :: data) =
      .prompt (d.writeMemory w a b) := by
  have htext : "memory write ".toList = "memory".toList ++ ' ' :: ("write".toList ++ [' ']) := rfl
  have hmemory : IsWord "memory".toList := .of_all (by decide) (by decide)
  have hwrite : IsWord "write".toList := .of_all (by decide) (by decide)
  refine handleCommandLine_memoryWrite fuel d ?_ ?_ haddr hdata
  · rw [List.append_assoc]
    exact startsWith_memoryWrite _
  · have hword : ('0' :: 'x' :: addr) ++ ' ' :: '0' :: 'x' :: data =
        '0' :: 'x' :: (addr ++ ' ' :: '0' :: 'x' :: data) := rfl
    rw [htext]
    simp only [List.append_assoc, List.cons_append, List.nil_append]
    rw [hmemory.splitWhitespace_cons, hwrite.splitWhitespace_cons, ← hword,
      (isWord_number haddr).splitWhitespace_cons, (isWord_number hdata).splitWhitespace_last]

theorem handleCommandLine_breakpoint {addr : Str} {a : Word} (haddr : HexText addr a) :
    handleCommandLine w fuel d ("b ".toList ++ '0' :: 'x' :: addr) =
      .ofMove (d.setBreakpoint w a) := by
  refine handleCommandLine_b fuel d (startsWith_append "b " _) ?_ haddr
  have htext : "b ".toList = "b".toList ++ [' '] := rfl
  have hb : IsWord "b".toList := .of_all (by decide) (by decide)
  rw [htext, List.append_assoc, List.singleton_append, hb.splitWhitespace_cons,
    (isWord_number haddr).splitWhitespace_last]

/-- `run` comes back to its prompt after a line that begins with a command word. -/
theorem run_line {text : String} {rest : List Str} {d' : Debugger K}
    (hstart : startsWith line text = true) (hexit : startsWith "exit".toList text = false)
    (hquit : startsWith "quit".toList text = false)
    (h : handleCommandLine w fuel d line = .prompt d') :
    run w fuel d (line :: rest) = run w fuel d' rest := by
  have hstay : ¬ (line = "exit".toList ∨ line = "quit".toList) := by
    rintro (rfl | rfl)
    · exact Bool.false_ne_true (hexit.symm.trans hstart)
    · exact Bool.false_ne_true (hquit.symm.trans hstart)
  rw [run, if_neg hstay, h]

/-- The debugger with its tracee stopped as `m`. -/
def Debugger.withMachine (m : Machine K) (sig : SigInfo) : Debugger K :=
  { d with tracee := .stopped m sig }

/-- The registers of the list have the values printed, and the others are as they were. -/
theorem run_registers (m : Machine K) (sig : SigInfo) (regs : Reg → Word) (rs : List Reg)
    (rest : List Str) :
    run w fuel (d.withMachine m sig)
        ((rs.map fun reg => retypeRegister (dumpLine reg (regs reg))) ++ rest) =
      run w fuel (d.withMachine { m with regs := fun r => if r ∈ rs then regs r else m.regs r } sig)
        rest := by
  induction rs generalizing m with
  | nil => simp
  | cons reg rs ih =>
      have hline := handleCommandLine_register (w := w) fuel (d.withMachine m sig) reg
        (hexText_paddedHex (regs reg))
      have hregs : (fun r => if r ∈ rs then regs r else (m.setReg reg (regs reg)).regs r) =
          fun r => if r ∈ reg :: rs then regs r else m.regs r := by
        funext r
        by_cases hr : r = reg
        · subst hr
          simp [Machine.setReg]
        · simp [Machine.setReg, hr]
      rw [← retypeRegister_dumpLine] at hline
      have hstart : startsWith (retypeRegister (dumpLine reg (regs reg))) "r " = true := by
        unfold retypeRegister
        rw [List.append_assoc]
        exact startsWith_rWrite _
      rw [List.map_cons, List.cons_append, run_line fuel _ hstart (by decide) (by decide) hline,
        ← hregs]
      exact ih (m.setReg reg (regs reg))

/-- Every byte of the words of the list is as printed, and the others are as they were. -/
theorem run_memory (m : Machine K) (sig : SigInfo) (mem : Memory) {addrs : List Word}
    (haccess : ∀ a ∈ addrs, accessible w m a) :
    run w fuel (d.withMachine m sig)
        (addrs.map fun a => retypeMemory (memoryLine a (readWord mem a))) =
      .prompt (d.withMachine
        { m with mem := fun x => if ∃ a ∈ addrs, Within a 8 x then mem x else m.mem x } sig) := by
  induction addrs generalizing m with
  | nil => simp [run]
  | cons a addrs ih =>
      have hline := handleCommandLine_memory (w := w) fuel (d.withMachine m sig)
        (hexText_lowerHex a) (hexText_lowerHex (readWord mem a))
      have hwrite : (d.withMachine m sig).writeMemory w a (readWord mem a) =
          d.withMachine { m with mem := writeWord m.mem a (readWord mem a) } sig := by
        rw [Debugger.writeMemory, Debugger.withMachine,
          pokedata_stopped (haccess a List.mem_cons_self) sig]
        rfl
      have hmem : (fun x => if ∃ b ∈ addrs, Within b 8 x then mem x
          else writeWord m.mem a (readWord mem a) x) =
          fun x => if ∃ b ∈ a :: addrs, Within b 8 x then mem x else m.mem x := by
        funext x
        by_cases hx : Within a 8 x
        · have hbyte : writeWord m.mem a (readWord mem a) x = mem x :=
            (writeWord_within m.mem _ hx).trans (readWord_eq_iff.mp rfl x hx).symm
          simp [hx, hbyte]
        · simp [hx, writeWord_outside m.mem (readWord mem a) hx]
      have hstart : startsWith (retypeMemory (memoryLine a (readWord mem a))) "memory " = true := by
        unfold retypeMemory
        rw [List.append_assoc]
        exact startsWith_memoryWrite _
      rw [← retypeMemory_memoryLine, hwrite] at hline
      rw [List.map_cons, run_line fuel _ hstart (by decide) (by decide) hline, ← hmem]
      exact ih { m with mem := writeWord m.mem a (readWord mem a) } fun b hb =>
        haccess b (List.mem_cons_of_mem a hb)

/-- What is printed of one process can be typed at another.  A dump and the lines
of `memory read` bring every register and all bytes printed over, the line of
`r read` brings its register, and the line of a breakpoint plants it again. -/
theorem printed_typed_back {d d' : Debugger K} {m m' : Machine K} {sig sig' : SigInfo}
    (hlive : d.Live m sig) (hlive' : d'.Live m' sig') {addrs : List Word}
    (hread : ∀ a ∈ addrs, accessible w m a) (hwrite : ∀ a ∈ addrs, accessible w m' a) :
    run w fuel d' ((dumpRegisters w d).map retypeRegister ++
        addrs.map fun a => retypeMemory (memoryLine a (d.readMemory w a))) =
      .prompt (d'.withMachine ⟨m.regs, fun x =>
        if ∃ a ∈ addrs, Within a 8 x then m.mem x else m'.mem x, m'.kernel⟩ sig') ∧
    (∀ reg, handleCommandLine w fuel d'
        (retypeRegister (registerLine reg (getRegs w d.tracee reg))) =
      .prompt (d'.withMachine (m'.setReg reg (m.regs reg)) sig')) ∧
    ∀ addr bp, handleCommandLine w fuel d' (retypeBreakpoint (breakpointLine addr bp)) =
      .ofMove (d'.setBreakpoint w addr) := by
  have hhere : d' = d'.withMachine m' sig' := by rw [Debugger.withMachine, ← hlive']
  have hregs : getRegs w d.tracee = m.regs := by
    rw [hlive]
    rfl
  refine ⟨?_, fun reg => ?_, fun addr bp => ?_⟩
  · have hdump : (dumpRegisters w d).map retypeRegister =
        Reg.all.map fun reg => retypeRegister (dumpLine reg (m.regs reg)) := by
      rw [dumpRegisters, List.map_map, hregs]
      rfl
    have hmemory : (addrs.map fun a => retypeMemory (memoryLine a (d.readMemory w a))) =
        addrs.map fun a => retypeMemory (memoryLine a (readWord m.mem a)) := by
      refine List.map_congr_left fun a ha => ?_
      rw [Debugger.readMemory, hlive, peekdata_stopped (hread a ha)]
    have hall : (fun r => if r ∈ Reg.all then m.regs r else m'.regs r) = m.regs :=
      funext fun r => if_pos (Reg.mem_all r)
    rw [hdump, hmemory, hhere, run_registers, hall]
    exact run_memory fuel d' ⟨m.regs, m'.mem, m'.kernel⟩ sig' m.mem hwrite
  · rw [retypeRegister_registerLine, hregs,
      handleCommandLine_register fuel d' reg (hexText_lowerHex (m.regs reg)), Debugger.setReg,
      hlive']
    rfl
  · rw [retypeBreakpoint_breakpointLine]
    exact handleCommandLine_breakpoint fuel d' (hexText_lowerHex addr)

end

/-- One word, from a memory of `nop` to a memory of `int3`. -/
theorem printed_typed_back_sample :
    run ShadowMemory.sampleWorld 1 (ShadowMemory.sampleDebugger (fun _ => int3) fun _ => none)
        ((dumpRegisters ShadowMemory.sampleWorld
            (ShadowMemory.sampleDebugger ShadowMemory.sampleMemory fun _ => none)).map
          retypeRegister ++
        [200].map fun a => retypeMemory (memoryLine a
          ((ShadowMemory.sampleDebugger ShadowMemory.sampleMemory fun _ => none).readMemory
            ShadowMemory.sampleWorld a))) =
      .prompt ((ShadowMemory.sampleDebugger (fun _ => int3) fun _ => none).withMachine
        ⟨fun _ => 100, fun x => if ∃ a ∈ [200], Within a 8 x then 0x90 else int3, ()⟩
        ⟨sigtrap, trapTrace⟩) := by
  have hlive : (ShadowMemory.sampleDebugger ShadowMemory.sampleMemory fun _ => none).Live
      (ShadowMemory.sampleMachine ShadowMemory.sampleMemory) ⟨sigtrap, trapTrace⟩ := rfl
  have hlive' : (ShadowMemory.sampleDebugger (fun _ => int3) fun _ => none).Live
      (ShadowMemory.sampleMachine fun _ => int3) ⟨sigtrap, trapTrace⟩ := rfl
  exact (printed_typed_back 1 hlive hlive' (fun _ _ => rfl) fun _ _ => rfl).1

end CsInternal.MiniGdb
