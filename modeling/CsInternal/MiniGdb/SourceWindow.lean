import CsInternal.MiniGdb.Debugger

/-!
# The lines that `print_source` shows

The window around a line is cut out by `skip` and `take`, and the cursor is put
on the line whose index in the window equals the context size.  At the start of
the file the window is cut short, and then that index is another line's.
-/

namespace CsInternal.MiniGdb.SourceWindow

open CsInternal.Library.ByteMemory

/-- The lines of a file; one that is not UTF-8 is `none`. -/
abbrev Source := List (Option String)

/-- A line that is printed. -/
structure Row where
  cursor : String
  line : String
  deriving DecidableEq, Repr

/-- Addition of `usize`, with overflow checks. -/
def checkedAdd (a b : Word) : Except Stop Word :=
  if a + b < a then .error .panicked else .ok (a + b)

/-- `start` of `print_source`. -/
def windowStart (lineNo nLinesContext : Word) : Except Stop Word :=
  if lineNo > nLinesContext then do
    let before ← checkedSub lineNo nLinesContext
    checkedSub before 1
  else .ok 0

/-- `print_source` behind `File::open`: what it prints. -/
def printLines (f : Source) (lineNo nLinesContext : Word) : Except Stop (List Row) := do
  let start ← windowStart lineNo nLinesContext
  let beyond ← checkedAdd lineNo nLinesContext
  let last ← checkedSub beyond 1
  let span ← checkedSub last start
  let count ← checkedAdd span 1
  .ok (((f.drop start.toNat).take count.toNat).mapIdx fun i line =>
    ⟨if i = nLinesContext.toNat then ">" else " ", line.getD ""⟩)

/-- `print_source`; `files` says what `File::open` finds. -/
def printSource (files : String → Option Source) (path : String) (lineNo nLinesContext : Word) :
    Except Stop (List Row) :=
  match files path with
  | none => .error .panicked
  | some f => printLines f lineNo nLinesContext

theorem checkedAdd_eq_ok {a b c : Word} (h : checkedAdd a b = .ok c) : c = a + b := by
  rw [checkedAdd] at h
  split at h
  · cases h
  · exact (Except.ok.inj h).symm

theorem checkedAdd_of_fits {a b : Word} (h : a.toNat + b.toNat < 2 ^ 64) :
    checkedAdd a b = .ok (a + b) :=
  if_neg (by bv_omega)

theorem checkedAdd_of_overflow {a b : Word} (h : 2 ^ 64 ≤ a.toNat + b.toNat) :
    checkedAdd a b = .error .panicked :=
  if_pos (by bv_omega)

/-- The window that is printed: it starts at the line after the first
`lineNo - (n + 1)` and ends at line `lineNo + n`. -/
def window (f : Source) (lineNo n : Nat) : List Row :=
  ((f.drop (lineNo - (n + 1))).take (lineNo + n - (lineNo - (n + 1)))).mapIdx fun i line =>
    ⟨if i = n then ">" else " ", line.getD ""⟩

theorem windowStart_eq (lineNo n : Word) : ∃ start, windowStart lineNo n = .ok start ∧
    start.toNat = lineNo.toNat - (n.toNat + 1) := by
  unfold windowStart
  split
  · rename_i hbehind
    have hskip : (1 : Word) ≤ lineNo - n := by bv_omega
    refine ⟨lineNo - n - 1, bind_eq_ok.mpr ⟨lineNo - n, checkedSub_of_le ?_, ?_⟩, by bv_omega⟩
    · bv_omega
    · exact checkedSub_of_le hskip
  · exact ⟨0, rfl, by bv_omega⟩

/-- Nothing underflows but for no context around line 0. -/
theorem printLines_of_fits (f : Source) {lineNo n : Word} (hpos : 1 ≤ lineNo.toNat + n.toNat)
    (hfits : lineNo.toNat + n.toNat < 2 ^ 64) :
    printLines f lineNo n = .ok (window f lineNo.toNat n.toNat) := by
  obtain ⟨start, hstart, hfrom⟩ := windowStart_eq lineNo n
  have hlast : (1 : Word) ≤ lineNo + n := by bv_omega
  have hspan : start ≤ lineNo + n - 1 := by bv_omega
  have hcount : (lineNo + n - 1 - start).toNat + (1 : Word).toNat < 2 ^ 64 := by bv_omega
  have hsize : (lineNo + n - 1 - start + 1).toNat =
      lineNo.toNat + n.toNat - (lineNo.toNat - (n.toNat + 1)) := by bv_omega
  refine bind_eq_ok.mpr ⟨start, hstart, bind_eq_ok.mpr ⟨_, checkedAdd_of_fits hfits,
    bind_eq_ok.mpr ⟨_, checkedSub_of_le hlast, bind_eq_ok.mpr ⟨_, checkedSub_of_le hspan,
      bind_eq_ok.mpr ⟨_, checkedAdd_of_fits hcount, ?_⟩⟩⟩⟩⟩
  rw [hfrom, hsize]
  rfl

theorem printLines_of_overflow (f : Source) {lineNo n : Word}
    (hover : 2 ^ 64 ≤ lineNo.toNat + n.toNat) : printLines f lineNo n = .error .panicked := by
  obtain ⟨start, hstart, _⟩ := windowStart_eq lineNo n
  rw [printLines, hstart, checkedAdd_of_overflow hover]
  rfl

/-- With one line of context, as in all of its calls, `print_source` panics
exactly where the file cannot be opened. -/
theorem printSource_iff_openable {K : Type} {w : World K} {files : String → Option Source}
    (hfiles : ∀ path, w.openable path = (files path).isSome) (path : String) {lineNo : Word}
    (hline : lineNo.toNat < 2 ^ 32) :
    (∃ rows, printSource files path lineNo 1 = .ok rows) ↔
      Debugger.printSource w path = .ok () := by
  rw [Debugger.printSource, hfiles, printSource]
  cases files path with
  | none => simp
  | some f =>
      have hprinted : printLines f lineNo 1 = .ok (window f lineNo.toNat 1) :=
        printLines_of_fits f (by bv_omega) (by bv_omega)
      exact ⟨fun _ => rfl, fun _ => ⟨_, hprinted⟩⟩

/-! ## The window as it should be -/

/-- A row with the line that it stands for. -/
def Row.shown (row : Row) : String × Option String := (row.cursor, some row.line)

/-- The lines numbered from `first` to `last` as they are in the file, the cursor
on line `lineNo`. -/
def numbered (f : Source) (lineNo first last : Nat) : List (String × Option String) :=
  (List.range' first (last + 1 - first)).map fun k =>
    (if k = lineNo then ">" else " ", (f[k - 1]?).join)

/-- The first and the last line of the window. -/
def firstLine (lineNo n : Nat) : Nat := max 1 (lineNo - n)

def lastLine (f : Source) (lineNo n : Nat) : Nat := min f.length (lineNo + n)

/-- `print_source` prints just the lines of the window. -/
def WindowRight (f : Source) (lineNo n : Word) : Prop :=
  ∃ rows, printLines f lineNo n = .ok rows ∧ rows.map Row.shown =
    numbered f lineNo.toNat (firstLine lineNo.toNat n.toNat) (lastLine f lineNo.toNat n.toNat)

/-- Every line of the window is UTF-8. -/
def Decodes (f : Source) (lineNo n : Nat) : Prop :=
  ∀ k, firstLine lineNo n ≤ k → k ≤ lastLine f lineNo n → ((f[k - 1]?).join).isSome

theorem window_length (f : Source) (lineNo n : Nat) :
    (window f lineNo n).length =
      min (lineNo + n - (lineNo - (n + 1))) (f.length - (lineNo - (n + 1))) := by
  rw [window, List.length_mapIdx, List.length_take, List.length_drop]

theorem window_row (f : Source) (lineNo n : Nat) {i : Nat}
    (hi : i < (window f lineNo n).length) :
    (window f lineNo n)[i] = ⟨if i = n then ">" else " ",
      ((f[lineNo - (n + 1) + i]?).join).getD ""⟩ := by
  have hin := hi
  rw [window_length] at hin
  have hline : lineNo - (n + 1) + i < f.length := by omega
  simp [window, List.getElem?_eq_getElem hline]

theorem numbered_row (f : Source) (lineNo first last : Nat) {i : Nat}
    (hi : i < (numbered f lineNo first last).length) :
    (numbered f lineNo first last)[i] =
      (if first + i = lineNo then ">" else " ", (f[first + i - 1]?).join) := by
  simp [numbered]

theorem some_getD_eq_iff (line : Option String) : some (line.getD "") = line ↔ line.isSome := by
  cases line <;> simp

/-- Row by row, the window is right about the cursor and about the line. -/
theorem window_eq_numbered_iff_rows (f : Source) {lineNo n : Nat} (hpos : 1 ≤ lineNo)
    (hin : lineNo ≤ f.length) :
    (window f lineNo n).map Row.shown =
        numbered f lineNo (firstLine lineNo n) (lastLine f lineNo n) ↔
      ∀ i, i < (window f lineNo n).length →
        ((if i = n then ">" else " ") = if firstLine lineNo n + i = lineNo then ">" else " ") ∧
          ((f[firstLine lineNo n + i - 1]?).join).isSome := by
  have hlength : ((window f lineNo n).map Row.shown).length =
      (numbered f lineNo (firstLine lineNo n) (lastLine f lineNo n)).length := by
    rw [List.length_map, window_length, numbered, List.length_map, List.length_range', firstLine,
      lastLine]
    omega
  have hindex : ∀ i, firstLine lineNo n + i - 1 = lineNo - (n + 1) + i := by
    intro i
    rw [firstLine]
    omega
  constructor
  · intro hsame i hi
    have hi' : i < ((window f lineNo n).map Row.shown).length := by rwa [List.length_map]
    have hrows := List.getElem_of_eq hsame hi'
    rw [List.getElem_map, window_row f lineNo n hi, numbered_row, hindex, Row.shown,
      Prod.mk.injEq, some_getD_eq_iff] at hrows
    rwa [hindex]
  · intro hrows
    refine List.ext_getElem hlength fun i hi hi' => ?_
    have hi₀ : i < (window f lineNo n).length := by rwa [List.length_map] at hi
    have hrow := hrows i hi₀
    rw [List.getElem_map, window_row f lineNo n hi₀, numbered_row, Row.shown, Prod.mk.injEq,
      ← hindex, some_getD_eq_iff]
    exact hrow

/-- The lines of the window are right if they are UTF-8; the cursor is where the
window was not cut short at the start. -/
theorem window_eq_numbered_iff (f : Source) {lineNo n : Nat} (hpos : 1 ≤ lineNo)
    (hin : lineNo ≤ f.length) :
    (window f lineNo n).map Row.shown =
        numbered f lineNo (firstLine lineNo n) (lastLine f lineNo n) ↔
      n < lineNo ∧ Decodes f lineNo n := by
  have hlength := window_length f lineNo n
  rw [window_eq_numbered_iff_rows f hpos hin]
  constructor
  · intro hrows
    refine ⟨?_, fun k hfirst hlast => ?_⟩
    · by_cases hlt : n < lineNo
      · exact hlt
      -- the row of `lineNo` itself has no cursor
      have hne : lineNo - 1 ≠ n := by omega
      have hat : firstLine lineNo n + (lineNo - 1) = lineNo := by
        rw [firstLine]
        omega
      have hmark := (hrows (lineNo - 1) (by omega)).1
      rw [if_neg hne, if_pos hat] at hmark
      exact absurd hmark (by decide)
    · have hback : firstLine lineNo n + (k - firstLine lineNo n) - 1 = k - 1 := by omega
      have hline := (hrows (k - firstLine lineNo n) (by
        rw [firstLine] at hfirst ⊢
        rw [lastLine] at hlast
        omega)).2
      rwa [hback] at hline
  · rintro ⟨hlt, hdecodes⟩ i hi
    constructor
    · have hcursor : (firstLine lineNo n + i = lineNo) = (i = n) := by
        rw [firstLine]
        refine propext ⟨fun h => ?_, fun h => ?_⟩ <;> omega
      simp only [hcursor]
    · refine hdecodes (firstLine lineNo n + i) (Nat.le_add_right ..) ?_
      rw [firstLine, lastLine]
      omega

/-- The window is right exactly behind the first `n` lines, as long as the last
line number fits a `usize` and its lines are UTF-8. -/
theorem print_source_window_iff (f : Source) {lineNo : Word} (n : Word)
    (hpos : 1 ≤ lineNo.toNat) (hin : lineNo.toNat ≤ f.length) :
    WindowRight f lineNo n ↔
      n < lineNo ∧ lineNo.toNat + n.toNat < 2 ^ 64 ∧ Decodes f lineNo.toNat n.toNat := by
  by_cases hfits : lineNo.toNat + n.toNat < 2 ^ 64
  · have hwindow := window_eq_numbered_iff f (n := n.toNat) hpos hin
    rw [WindowRight, printLines_of_fits f (by omega) hfits, BitVec.lt_def]
    constructor
    · rintro ⟨rows, hrows, hsame⟩
      obtain rfl := Except.ok.inj hrows
      exact ⟨(hwindow.mp hsame).1, hfits, (hwindow.mp hsame).2⟩
    · rintro ⟨hlt, _, hdecodes⟩
      exact ⟨_, rfl, hwindow.mpr ⟨hlt, hdecodes⟩⟩
  · rw [WindowRight, printLines_of_overflow f (by omega)]
    constructor
    · rintro ⟨rows, hrows, _⟩
      cases hrows
    · exact fun h => absurd h.2.1 hfits

/-- Five lines, the last of which is not UTF-8. -/
def sampleSource : Source := [some "a", some "b", some "c", some "d", none]

/-- Around line 3 the window is right, and one line further it is not. -/
theorem print_source_window_iff_third :
    WindowRight sampleSource 3 1 ∧ ¬ WindowRight sampleSource 4 1 := by
  constructor
  · refine (print_source_window_iff sampleSource 1 (by decide) (by decide)).mpr
      ⟨by decide, by decide, fun k hfirst hlast => ?_⟩
    obtain rfl | rfl | rfl : k = 2 ∨ k = 3 ∨ k = 4 := by
      change 2 ≤ k at hfirst
      change k ≤ 4 at hlast
      omega
    all_goals rfl
  · rw [print_source_window_iff sampleSource 1 (by decide) (by decide)]
    rintro ⟨_, _, hdecodes⟩
    exact absurd (hdecodes 5 (by decide) (by decide)) (by decide)

/-- At line 1 with one line of context the cursor is put on line 2. -/
theorem cursor_on_next_line :
    printLines sampleSource 1 1 = .ok [⟨" ", "a"⟩, ⟨">", "b"⟩] ∧
      ¬ WindowRight sampleSource 1 1 := by
  have hprinted : printLines sampleSource 1 1 = .ok [⟨" ", "a"⟩, ⟨">", "b"⟩] := by decide
  refine ⟨hprinted, ?_⟩
  rintro ⟨rows, hrows, hright⟩
  rw [hprinted] at hrows
  obtain rfl := Except.ok.inj hrows
  exact absurd hright (by decide)

end CsInternal.MiniGdb.SourceWindow
