import CsInternal.Library.ByteMemory
import CsInternal.Library.Loop

/-!
# The file system of `fuse_test_03`

One directory with one file, served by four callbacks.  Each of them compares
the path anew: `getattr_callback` fills in the attributes of the file and then
falls through to its last line, and `read_callback` copies as many bytes as it
is asked for, whatever the length of the content.
-/

namespace CsInternal.Io.FuseFile

open CsInternal.Library CsInternal.Library.ByteMemory CsInternal.Library.Loop

abbrev Byte := BitVec 8

/-- The characters of a C string, without the zero behind them. -/
abbrev CString := List Byte

/-- A string literal. -/
def cstring (s : String) : CString := s.toList.map (fun c => BitVec.ofNat 8 c.toNat)

/-- `text_file_path` -/
def textFilePath : CString := cstring "/a.txt"

/-- `text_file_content` -/
def textFileContent : CString := cstring "FUSE filesystem, Hello, World!\n"

/-- `ENOENT`, an `int`. -/
def enoent : BitVec 32 := 2

/-- `EACCES` -/
def eacces : BitVec 32 := 13

/-- `O_RDONLY` -/
def oRdonly : BitVec 32 := 0

/-- The fields of `struct stat` that are set. -/
structure Stat where
  stMode : BitVec 32
  stNlink : BitVec 64
  stSize : BitVec 64
  deriving DecidableEq, Repr

/-- `S_ISREG(st->st_mode)` -/
def Stat.isReg (st : Stat) : Prop := st.stMode &&& 0xf000 = 0x8000

instance (st : Stat) : Decidable st.isReg :=
  inferInstanceAs (Decidable (st.stMode &&& 0xf000 = 0x8000))

/-- `getattr_callback`: the result and `*st`. -/
def getattrCallback (path : CString) : BitVec 32 × Stat :=
  let st : Stat := ⟨0, 0, 0⟩
  if path = cstring "/" then
    -- S_IFDIR | 0755
    (0, { st with stMode := 0x4000 ||| 0x1ed, stNlink := 2 })
  else
    let st :=
      if path = textFilePath then
        -- S_IFREG | 0444
        { stMode := 0x8000 ||| 0x124, stNlink := 1,
          stSize := BitVec.ofNat 64 textFileContent.length }
      else st
    (-enoent, st)

/-- `readdir_callback`: the result and the names passed to `filler`. -/
def readdirCallback (path : CString) : BitVec 32 × List CString :=
  if path ≠ cstring "/" then (-enoent, [])
  else (0, [cstring ".", cstring "..", textFilePath.drop 1])

/-- `open_callback`, with `fi->flags`. -/
def openCallback (path : CString) (flags : BitVec 32) : BitVec 32 :=
  if path ≠ textFilePath then -enoent
  else if flags &&& 3 ≠ oRdonly then -eacces
  else 0

/-- The memory of the process, with the literal in it. -/
structure Image where
  mem : Memory
  /-- where `text_file_content` points -/
  content : Word
  holds : ∀ i (hi : i < textFileContent.length),
    mem (content + BitVec.ofNat 64 i) = textFileContent[i]
  terminator : mem (content + BitVec.ofNat 64 textFileContent.length) = 0

/-- The bytes that `memcpy` of `n` bytes from `a` takes. -/
def memcpy (mem : Memory) (a : Word) (n : Nat) : List Byte :=
  (List.range n).map (fun i => mem (a + BitVec.ofNat 64 i))

/-- `read_callback`: the result and the bytes written to `buf`.  The result is
the `size_t` cut down to an `int`. -/
def readCallback (image : Image) (path : CString) (size offset : BitVec 64) :
    BitVec 32 × List Byte :=
  if path ≠ textFilePath then (-enoent, [])
  else (size.setWidth 32, memcpy image.mem (image.content + offset) size.toNat)

/-- The callbacks agree on the path `p`: with the listing of the root, with
each other on files, and on what is not there. -/
structure Agree (image : Image) (p : CString) : Prop where
  listed : (getattrCallback p).1 = 0 ↔ p = cstring "/" ∨
    ∃ name ∈ (readdirCallback (cstring "/")).2, name ≠ cstring "." ∧ name ≠ cstring ".." ∧
      p = cstring "/" ++ name
  opened : ∀ flags, flags &&& 3 = oRdonly →
    (openCallback p flags = 0 ↔ (getattrCallback p).1 = 0 ∧ (getattrCallback p).2.isReg)
  missing : ∀ flags size offset,
    (readCallback image p size offset).1 = -enoent ↔ openCallback p flags = -enoent

theorem getattrCallback_eq_zero_iff (p : CString) :
    (getattrCallback p).1 = 0 ↔ p = cstring "/" := by
  unfold getattrCallback
  split
  · rename_i hroot
    simp [hroot]
  · rename_i hroot
    simp [hroot, enoent]

/-- The only name in the listing besides the two dots is the file's. -/
theorem listed_iff (p : CString) :
    (∃ name ∈ (readdirCallback (cstring "/")).2, name ≠ cstring "." ∧ name ≠ cstring ".." ∧
      p = cstring "/" ++ name) ↔ p = textFilePath := by
  have hlisting : (readdirCallback (cstring "/")).2 =
      [cstring ".", cstring "..", textFilePath.drop 1] := by decide
  have hpath : cstring "/" ++ textFilePath.drop 1 = textFilePath := by decide
  rw [hlisting]
  constructor
  · rintro ⟨name, hname, hdot, hdots, rfl⟩
    simp only [List.mem_cons, List.not_mem_nil, or_false] at hname
    obtain rfl | rfl | rfl := hname
    · exact absurd rfl hdot
    · exact absurd rfl hdots
    · exact hpath
  · rintro rfl
    exact ⟨textFilePath.drop 1, by simp, by decide, by decide, hpath.symm⟩

/-- The size as an `int` may itself be the error code. -/
theorem readCallback_enoent_iff (image : Image) (p : CString) (size offset : BitVec 64) :
    (readCallback image p size offset).1 = -enoent ↔
      p ≠ textFilePath ∨ size.setWidth 32 = -enoent := by
  unfold readCallback
  split
  · rename_i hpath
    simp [hpath]
  · rename_i hpath
    simp [not_not.mp hpath]

theorem openCallback_enoent_iff (p : CString) (flags : BitVec 32) :
    openCallback p flags = -enoent ↔ p ≠ textFilePath := by
  unfold openCallback
  split
  · rename_i hpath
    simp [hpath]
  · rename_i hpath
    split <;> simp [not_not.mp hpath, enoent, eacces]

theorem openCallback_eq_zero_iff (p : CString) {flags : BitVec 32}
    (hflags : flags &&& 3 = oRdonly) : openCallback p flags = 0 ↔ p = textFilePath := by
  unfold openCallback
  split
  · rename_i hpath
    simp [hpath, enoent]
  · rename_i hpath
    simpa [not_not.mp hpath] using fun hne => absurd hflags hne

/-- The callbacks agree on every path but the one of the file. -/
theorem callbacks_agree_iff (image : Image) (p : CString) :
    Agree image p ↔ p ≠ textFilePath := by
  have hroot : textFilePath ≠ cstring "/" := by decide
  constructor
  · rintro hagree rfl
    have hzero := hagree.listed.mpr (Or.inr ((listed_iff textFilePath).mpr rfl))
    exact hroot ((getattrCallback_eq_zero_iff textFilePath).mp hzero)
  · intro hpath
    refine ⟨?_, fun flags hflags => ?_, fun flags size offset => ?_⟩
    · rw [getattrCallback_eq_zero_iff, listed_iff]
      exact ⟨Or.inl, fun h => h.resolve_right hpath⟩
    · rw [openCallback_eq_zero_iff p hflags, getattrCallback_eq_zero_iff]
      refine ⟨fun h => absurd h hpath, ?_⟩
      rintro ⟨rfl, hreg⟩
      exact absurd hreg (by decide)
    · rw [readCallback_enoent_iff, openCallback_enoent_iff]
      exact ⟨fun _ => hpath, Or.inl⟩

/-- The literal at `0x1000`, zeros around it. -/
def sampleImage : Image where
  mem x := textFileContent.getD (x - 0x1000).toNat 0
  content := 0x1000
  holds i hi := by
    have hfile : textFileContent.length = 31 := by decide
    have hindex : (0x1000 + BitVec.ofNat 64 i - 0x1000 : Word).toNat = i := by bv_omega
    rw [hindex, List.getD_eq_getElem?_getD, List.getElem?_eq_getElem hi, Option.getD_some]
  terminator := by decide

/-- The file is listed and can be opened, but has no attributes; and a read of
`2 ^ 32 - 2` bytes answers `-ENOENT`. -/
theorem file_disagrees :
    textFilePath.drop 1 ∈ (readdirCallback (cstring "/")).2 ∧
      openCallback textFilePath oRdonly = 0 ∧ (getattrCallback textFilePath).1 = -enoent ∧
      (readCallback sampleImage textFilePath 0xfffffffe 0).1 = -enoent ∧
      ¬ Agree sampleImage textFilePath := by
  have hopen : openCallback textFilePath oRdonly = 0 := by decide
  have hattributes : (getattrCallback textFilePath).1 = -enoent := by decide
  have hread : (readCallback sampleImage textFilePath 0xfffffffe 0).1 = -enoent :=
    (readCallback_enoent_iff sampleImage textFilePath 0xfffffffe 0).mpr (Or.inr (by decide))
  refine ⟨by decide, hopen, hattributes, hread, fun hagree => ?_⟩
  have hzero := ((hagree.opened oRdonly (by decide)).mp hopen).1
  rw [hattributes] at hzero
  exact absurd hzero (by decide)

/-! ## Reading the file -/

/-- The bytes of the file from `offset` on, at most `size` of them. -/
def piece (size offset : BitVec 64) : List Byte :=
  (textFileContent.drop offset.toNat).take size.toNat

/-- The request copies the bytes of the file that it asks for and returns how
many they are. -/
def RequestRight (image : Image) (size offset : BitVec 64) : Prop :=
  (readCallback image textFilePath size offset).2 = piece size offset ∧
    (readCallback image textFilePath size offset).1.toInt = (piece size offset).length

theorem readCallback_file (image : Image) (size offset : BitVec 64) :
    readCallback image textFilePath size offset =
      (size.setWidth 32, memcpy image.mem (image.content + offset) size.toNat) := if_neg (by simp)

@[simp] theorem memcpy_length (mem : Memory) (a : Word) (n : Nat) :
    (memcpy mem a n).length = n := by
  simp [memcpy]

/-- Within the literal `memcpy` takes its characters. -/
theorem memcpy_content (image : Image) (offset : BitVec 64) {n : Nat}
    (hfit : offset.toNat + n ≤ textFileContent.length) :
    memcpy image.mem (image.content + offset) n = (textFileContent.drop offset.toNat).take n := by
  refine List.ext_getElem ?_ fun i hi hi' => ?_
  · rw [memcpy_length, List.length_take, List.length_drop]
    omega
  · rw [memcpy_length] at hi
    have haddress : image.content + offset + BitVec.ofNat 64 i =
        image.content + BitVec.ofNat 64 (offset.toNat + i) := by bv_omega
    have hbyte := image.holds (offset.toNat + i) (by omega)
    simp [memcpy, haddress, hbyte]

/-- A request is right exactly where it ends within the file. -/
theorem requestRight_iff (image : Image) (size offset : BitVec 64) :
    RequestRight image size offset ↔
      size = 0 ∨ offset.toNat + size.toNat ≤ textFileContent.length := by
  have hlength : (piece size offset).length =
      min size.toNat (textFileContent.length - offset.toNat) := by
    rw [piece, List.length_take, List.length_drop]
  have hfile : textFileContent.length = 31 := by decide
  rw [RequestRight, readCallback_file]
  constructor
  · rintro ⟨hcopied, _⟩
    have hsame := congrArg List.length hcopied
    rw [memcpy_length, hlength] at hsame
    by_cases hzero : size = 0
    · exact Or.inl hzero
    · have hpos : size.toNat ≠ 0 := fun h => hzero (BitVec.eq_of_toNat_eq h)
      exact Or.inr (by omega)
  · rintro (rfl | hfit)
    · exact ⟨by simp [memcpy, piece], by simp [piece]⟩
    · refine ⟨memcpy_content image offset hfit, ?_⟩
      have hint : (size.setWidth 32).toNat = size.toNat := by
        rw [BitVec.toNat_setWidth]
        omega
      change (size.setWidth 32).toInt = _
      rw [hlength, BitVec.toInt_eq_toNat_of_lt (by omega), hint]
      omega

/-- A program that reads the file from the start. -/
structure Reader where
  round : Nat
  offset : BitVec 64
  got : List Byte

def Reader.start : Reader := ⟨0, 0, []⟩

/-- One round, with a chunk of the given size: it stops at 0, gives up at an
error, and else goes on behind the bytes returned. -/
def Reader.turn (image : Image) (chunks : Nat → BitVec 64) (r : Reader) :
    Except Int (List Byte) ⊕ Reader :=
  let answer := readCallback image textFilePath (chunks r.round) r.offset
  let count := answer.1
  if count = 0 then .inl (.ok r.got)
  else if count.msb then .inl (.error count.toInt)
  else .inr ⟨r.round + 1, r.offset + count.setWidth 64, r.got ++ answer.2.take count.toNat⟩

/-- The reader makes right requests only, stops, and has the content. -/
structure ReadsFile (image : Image) (chunks : Nat → BitVec 64) : Prop where
  requests : ∀ r, Visits (Reader.turn image chunks) .start r →
    RequestRight image (chunks r.round) r.offset
  stops : ∃ rounds, Exits (Reader.turn image chunks) .start rounds (.ok textFileContent)

theorem Reader.turn_ok {image : Image} {chunks : Nat → BitVec 64} {r : Reader} {got : List Byte}
    (hturn : Reader.turn image chunks r = .inl (.ok got)) :
    (chunks r.round).setWidth 32 = 0#32 := by
  unfold Reader.turn at hturn
  rw [readCallback_file] at hturn
  dsimp only at hturn
  split at hturn
  · rename_i hzero
    exact hzero
  · split at hturn <;> cases hturn

/-- A positive count is always followed by another round. -/
theorem Reader.turn_again (image : Image) {chunks : Nat → BitVec 64} {r : Reader}
    (hpos : 0 < ((chunks r.round).setWidth 32).toInt) :
    ∃ next, Reader.turn image chunks r = .inr next := by
  have hzero : (chunks r.round).setWidth 32 ≠ 0#32 := by
    intro h
    rw [h] at hpos
    exact absurd hpos (by decide)
  have hmsb : ((chunks r.round).setWidth 32).msb = false := by
    rw [BitVec.msb_eq_false_iff_two_mul_lt]
    exact BitVec.toInt_pos_iff.mp (Int.le_of_lt hpos)
  unfold Reader.turn
  rw [readCallback_file]
  simp [hzero, hmsb]

/-- The reader gets to 0 through a wrong request only, so it never reads the
file, whatever the chunks; and as long as the counts are positive it never stops. -/
theorem read_in_pieces (image : Image) :
    (∀ size offset, RequestRight image size offset ↔
      size = 0 ∨ offset.toNat + size.toNat ≤ textFileContent.length) ∧
    (∀ chunks, (∀ k, chunks k ≠ 0) → ¬ ReadsFile image chunks) ∧
    ∀ chunks, (∀ k, 0 < ((chunks k).setWidth 32).toInt) →
      ∀ rounds result, ¬ Exits (Reader.turn image chunks) .start rounds result := by
  refine ⟨requestRight_iff image, fun chunks hchunks hreads => ?_, fun chunks hchunks => ?_⟩
  · obtain ⟨rounds, hexits⟩ := hreads.stops
    obtain ⟨r, hvisits, hleave⟩ := hexits.last
    have hzero := Reader.turn_ok hleave
    have hfit := ((requestRight_iff image _ _).mp (hreads.requests r hvisits)).resolve_left
      (hchunks r.round)
    have hfile : textFileContent.length = 31 := by decide
    refine hchunks r.round ?_
    bv_omega
  · have hkeep : ∀ r : Reader, True → ∃ next, Reader.turn image chunks r = .inr next ∧ True := by
      intro r _
      obtain ⟨next, hnext⟩ := Reader.turn_again image (hchunks r.round)
      exact ⟨next, hnext, trivial⟩
    exact fun rounds result => not_exits hkeep trivial rounds result

theorem read_in_pieces_pages : ¬ ReadsFile sampleImage (fun _ => 4096) ∧
    ∀ rounds result,
      ¬ Exits (Reader.turn sampleImage (fun _ => 4096)) .start rounds result :=
  ⟨(read_in_pieces sampleImage).2.1 (fun _ => 4096) (fun _ => by decide),
    (read_in_pieces sampleImage).2.2 (fun _ => 4096) (fun _ => by decide)⟩

/-- Asked for a page, the callback says that it has copied a page. -/
theorem page_read_wrong :
    (readCallback sampleImage textFilePath 4096 0).1 = 4096 ∧
      (readCallback sampleImage textFilePath 4096 0).2.length = 4096 ∧
      ¬ RequestRight sampleImage 4096 0 ∧ ¬ ReadsFile sampleImage (fun _ => 4096) := by
  have hwrong : ¬ RequestRight sampleImage 4096 0 := by
    rw [requestRight_iff]
    decide
  have hanswer := readCallback_file sampleImage 4096 0
  have hpage : (4096 : BitVec 64).toNat = 4096 := by decide
  refine ⟨?_, ?_, hwrong, fun hreads => hwrong (hreads.requests .start (.here _))⟩
  · rw [hanswer]
    decide
  · rw [hanswer, memcpy_length, hpage]

end CsInternal.Io.FuseFile
