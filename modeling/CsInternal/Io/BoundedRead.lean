import Mathlib.Data.List.Intervals
import CsInternal.Io.FuseFile

/-!
# The bounded read of `fuse_test_02`

`read_callback` compares a signed offset with the unsigned length of the
content and cuts a request short that reaches behind its end.  All of the
arithmetic is that of `size_t`: a negative offset becomes a huge one.
-/

namespace CsInternal.Io.BoundedRead

open CsInternal.Library CsInternal.Library.ByteMemory CsInternal.Library.Loop
  CsInternal.Io.FuseFile

/-- `file_path` -/
def filePath : CString := cstring "/data/dev/ya/fuse_test"

/-- A string in memory, in the place of `file_content`. -/
structure Content where
  text : CString
  nulFree : 0 ∉ text
  short : text.length < 2 ^ 31
  mem : Memory
  /-- where `file_content` points -/
  base : Word
  holds : ∀ i (hi : i < text.length), mem (base + BitVec.ofNat 64 i) = text[i]
  terminator : mem (base + BitVec.ofNat 64 text.length) = 0

/-- The bytes of the array, the zero behind the characters included. -/
def Content.array (content : Content) : List Byte := content.text ++ [0]

/-- `strlen` of the string that an array begins with. -/
def strlen (array : List Byte) : BitVec 64 :=
  BitVec.ofNat 64 (array.takeWhile (· ≠ 0)).length

/-- What a call does. -/
structure Answer where
  result : BitVec 32
  /-- the addresses that `memcpy` reads -/
  source : List Word
  /-- the bytes written to `buf` -/
  copied : List Byte
  deriving DecidableEq

/-- The addresses that `memcpy` of `n` bytes from `a` reads. -/
def memcpySource (a : Word) (n : Nat) : List Word :=
  (List.range n).map (fun i => a + BitVec.ofNat 64 i)

/-- `read_callback`; `offset` is an `off_t`, and converted to `size_t` where it meets one. -/
def readCallback (content : Content) (path : CString) (size offset : BitVec 64) : Answer :=
  if path ≠ filePath then ⟨-enoent, [], []⟩
  else
    let len := strlen content.array
    if offset < len then
      let size := if offset + size > len then len - offset else size
      ⟨size.setWidth 32, memcpySource (content.base + offset) size.toNat,
        memcpy content.mem (content.base + offset) size.toNat⟩
    else
      let size : BitVec 64 := 0
      ⟨size.setWidth 32, [], []⟩

/-- The positions from `offset` on, at most `size` of them and below `len`, as
integers; none for a negative offset. -/
def positions (len : Nat) (size offset : BitVec 64) : List Nat :=
  if offset.toInt < 0 then []
  else List.Ico offset.toInt.toNat (min (offset.toInt + size.toNat) len).toNat

/-- The request copies the content at these positions, reads nothing else and
returns how many they are. -/
structure RequestExact (content : Content) (size offset : BitVec 64) : Prop where
  copied : (readCallback content filePath size offset).copied.map some =
    (positions content.text.length size offset).map (content.text[·]?)
  source : (readCallback content filePath size offset).source =
    (positions content.text.length size offset).map (content.base + BitVec.ofNat 64 ·)
  inside : ∀ a ∈ (readCallback content filePath size offset).source,
    ∃ p < content.text.length, a = content.base + BitVec.ofNat 64 p
  result : (readCallback content filePath size offset).result.toInt =
    (positions content.text.length size offset).length

variable {content : Content} {size offset : BitVec 64}

/-- How many bytes that is. -/
def count (content : Content) (size offset : BitVec 64) : Nat :=
  min size.toNat (content.text.length - offset.toNat)

theorem strlen_array (content : Content) :
    strlen content.array = BitVec.ofNat 64 content.text.length := by
  have hall : ∀ c ∈ content.text, decide (c ≠ 0) = true := by
    intro c hc
    exact decide_eq_true fun hzero => content.nulFree (hzero ▸ hc)
  rw [strlen, Content.array, List.takeWhile_append_of_pos hall]
  simp

theorem count_lt (content : Content) (size offset : BitVec 64) :
    count content size offset < 2 ^ 31 := by
  have hshort := content.short
  rw [count]
  omega

/-- The size that is left of a request that starts within the content. -/
theorem cut_eq (hsize : size.toNat < 2 ^ 32) (hstart : offset.toNat < content.text.length) :
    (if offset + size > BitVec.ofNat 64 content.text.length then
      BitVec.ofNat 64 content.text.length - offset else size) =
      BitVec.ofNat 64 (count content size offset) := by
  have hshort := content.short
  rw [count]
  split
  · rename_i hover
    have hcount : min size.toNat (content.text.length - offset.toNat) =
        content.text.length - offset.toNat := by bv_omega
    rw [hcount]
    bv_omega
  · rename_i hover
    have hcount : min size.toNat (content.text.length - offset.toNat) = size.toNat := by bv_omega
    rw [hcount, BitVec.ofNat_toNat, BitVec.setWidth_eq]

/-- Whatever way the conversions take, the call copies `count` bytes. -/
theorem readCallback_eq (content : Content) (hsize : size.toNat < 2 ^ 32) (offset : BitVec 64) :
    readCallback content filePath size offset =
      ⟨BitVec.ofNat 32 (count content size offset),
        memcpySource (content.base + offset) (count content size offset),
        memcpy content.mem (content.base + offset) (count content size offset)⟩ := by
  have hshort := content.short
  have hlen : (BitVec.ofNat 64 content.text.length).toNat = content.text.length := by
    rw [BitVec.toNat_ofNat]
    omega
  rw [readCallback, if_neg (fun h => h rfl), strlen_array]
  dsimp only
  split
  · rename_i hstart
    rw [BitVec.lt_def, hlen] at hstart
    have hfit : (BitVec.ofNat 64 (count content size offset)).toNat =
        count content size offset := by
      have hlt := count_lt content size offset
      rw [BitVec.toNat_ofNat]
      omega
    have hresult : (BitVec.ofNat 64 (count content size offset)).setWidth 32 =
        BitVec.ofNat 32 (count content size offset) := by
      rw [← BitVec.ofNat_toNat, hfit]
    rw [cut_eq hsize hstart, hfit, hresult]
  · rename_i hend
    rw [BitVec.lt_def, hlen] at hend
    have hnone : count content size offset = 0 := by
      rw [count]
      omega
    rw [hnone]
    rfl

/-- These are the positions asked for. -/
theorem positions_eq (content : Content) (size offset : BitVec 64) :
    positions content.text.length size offset =
      (List.range (count content size offset)).map (offset.toNat + ·) := by
  have hshort := content.short
  rw [positions, count]
  split
  · rename_i hneg
    have hhuge : content.text.length ≤ offset.toNat := by
      have hsign := BitVec.toInt_neg_iff.mp hneg
      omega
    rw [Nat.sub_eq_zero_of_le hhuge, Nat.min_zero]
    rfl
  · rename_i hpos
    have hint : offset.toInt = offset.toNat := by
      refine BitVec.toInt_eq_toNat_of_lt ?_
      have hsign := mt BitVec.toInt_neg_iff.mpr hpos
      omega
    have hend : (min ((offset.toNat : Int) + size.toNat) content.text.length).toNat -
        offset.toNat = min size.toNat (content.text.length - offset.toNat) := by omega
    rw [hint, Int.toNat_natCast, List.Ico, hend, List.range'_eq_map_range]

/-- Every request is answered exactly. -/
theorem requestExact (content : Content) (hsize : size.toNat < 2 ^ 32) (offset : BitVec 64) :
    RequestExact content size offset := by
  have hwithin : ∀ i < count content size offset, offset.toNat + i < content.text.length := by
    intro i hi
    rw [count] at hi
    omega
  have haddress : ∀ i, content.base + offset + BitVec.ofNat 64 i =
      content.base + BitVec.ofNat 64 (offset.toNat + i) := fun i => by bv_omega
  have hanswer := readCallback_eq content hsize offset
  constructor
  · rw [hanswer, positions_eq, memcpy, List.map_map, List.map_map]
    refine List.map_congr_left fun i hi => ?_
    have hfit := hwithin i (List.mem_range.mp hi)
    simp only [Function.comp_apply]
    rw [haddress, content.holds _ hfit, List.getElem?_eq_getElem hfit]
  · rw [hanswer, positions_eq, memcpySource, List.map_map]
    exact List.map_congr_left fun i _ => haddress i
  · rw [hanswer]
    intro a ha
    obtain ⟨i, hi, rfl⟩ := List.mem_map.mp ha
    exact ⟨_, hwithin i (List.mem_range.mp hi), haddress i⟩
  · have hlt := count_lt content size offset
    rw [hanswer, positions_eq, List.length_map, List.length_range,
      BitVec.toInt_eq_toNat_of_lt (by rw [BitVec.toNat_ofNat]; omega), BitVec.toNat_ofNat]
    omega

/-- One round of a program that reads from the start: it stops at 0, gives up at
an error, and else goes on behind the bytes returned. -/
def turn (content : Content) (chunks : Nat → BitVec 64) (r : Reader) :
    Except Int (List Byte) ⊕ Reader :=
  let answer := readCallback content filePath (chunks r.round) r.offset
  if answer.result = 0 then .inl (.ok r.got)
  else if answer.result.msb then .inl (.error answer.result.toInt)
  else .inr ⟨r.round + 1, r.offset + answer.result.setWidth 64,
    r.got ++ answer.copied.take answer.result.toNat⟩

theorem memcpy_eq_take (content : Content) (size offset : BitVec 64) :
    memcpy content.mem (content.base + offset) (count content size offset) =
      (content.text.drop offset.toNat).take (count content size offset) := by
  refine List.ext_getElem ?_ fun i hi hi' => ?_
  · rw [memcpy_length, List.length_take, List.length_drop, count]
    omega
  · rw [memcpy_length, count] at hi
    have haddress : content.base + offset + BitVec.ofNat 64 i =
        content.base + BitVec.ofNat 64 (offset.toNat + i) := by bv_omega
    have hbyte := content.holds (offset.toNat + i) (by omega)
    simp [memcpy, haddress, hbyte]

/-- What the reader has is the content up to its offset. -/
structure Reading (content : Content) (r : Reader) : Prop where
  inside : r.offset.toNat ≤ content.text.length
  got : r.got = content.text.take r.offset.toNat

variable {chunks : Nat → BitVec 64} {r : Reader}

theorem turn_at_end (hchunks : ∀ k, 0 < (chunks k).toNat ∧ (chunks k).toNat < 2 ^ 32)
    (h : Reading content r) (hend : r.offset.toNat = content.text.length) :
    turn content chunks r = .inl (.ok content.text) := by
  have hcount : count content (chunks r.round) r.offset = 0 := by
    rw [count, hend, Nat.sub_self, Nat.min_zero]
  have hgot : r.got = content.text := by
    rw [h.got, hend, List.take_length]
  rw [turn, readCallback_eq content (hchunks r.round).2, hcount, hgot]
  rfl

theorem turn_before_end (hchunks : ∀ k, 0 < (chunks k).toNat ∧ (chunks k).toNat < 2 ^ 32)
    (h : Reading content r) (hbefore : r.offset.toNat < content.text.length) :
    ∃ next, turn content chunks r = .inr next ∧ Reading content next ∧
      r.offset.toNat < next.offset.toNat := by
  have hshort := content.short
  have hanswer := readCallback_eq content (hchunks r.round).2 r.offset
  have htaken := memcpy_eq_take content (chunks r.round) r.offset
  have hlt := count_lt content (chunks r.round) r.offset
  have hpos : 0 < count content (chunks r.round) r.offset ∧
      count content (chunks r.round) r.offset ≤ content.text.length - r.offset.toNat := by
    have hchunk := (hchunks r.round).1
    rw [count]
    omega
  generalize count content (chunks r.round) r.offset = n at hanswer htaken hlt hpos
  have hresult : (BitVec.ofNat 32 n).toNat = n := by
    rw [BitVec.toNat_ofNat]
    omega
  have hzero : BitVec.ofNat 32 n ≠ 0 := by
    intro hzero
    rw [hzero] at hresult
    exact absurd hresult.symm (Nat.ne_of_gt hpos.1)
  have hmsb : (BitVec.ofNat 32 n).msb = false := by
    rw [BitVec.msb_eq_false_iff_two_mul_lt, hresult]
    omega
  have hoffset : (r.offset + (BitVec.ofNat 32 n).setWidth 64).toNat = r.offset.toNat + n := by
    rw [BitVec.toNat_add, BitVec.toNat_setWidth, hresult]
    omega
  refine ⟨⟨r.round + 1, r.offset + (BitVec.ofNat 32 n).setWidth 64,
    r.got ++ (memcpy content.mem (content.base + r.offset) n).take (BitVec.ofNat 32 n).toNat⟩,
    ?_, ⟨?_, ?_⟩, ?_⟩
  · rw [turn, hanswer]
    dsimp only
    rw [if_neg hzero, hmsb]
    rfl
  · dsimp only
    omega
  · dsimp only
    rw [hoffset, hresult, htaken, List.take_take, Nat.min_self, h.got, ← List.take_add]
  · dsimp only
    omega

/-- The reader gets to the end, where it has the content and is told 0. -/
theorem reads_content (hchunks : ∀ k, 0 < (chunks k).toNat ∧ (chunks k).toNat < 2 ^ 32)
    (h : Reading content r) :
    ∃ rounds, Exits (turn content chunks) r rounds (.ok content.text) := by
  generalize hleft : content.text.length - r.offset.toNat = left
  induction left using Nat.strongRecOn generalizing r with
  | ind left ih =>
      by_cases hend : r.offset.toNat = content.text.length
      · exact ⟨0, .leave (turn_at_end hchunks h hend)⟩
      · have hinside := h.inside
        obtain ⟨next, hturn, hnext, hlater⟩ := turn_before_end hchunks h (by omega)
        have hnextInside := hnext.inside
        obtain ⟨rounds, hexits⟩ := ih _ (by omega) hnext rfl
        exact ⟨rounds + 1, .again hturn hexits⟩

/--
Every request for less than 4 GiB is answered exactly, wherever it starts, and a
program that asks for the pieces one after the other gets the content.
-/
theorem bounded_read_exact (content : Content) :
    (∀ size offset : BitVec 64, size.toNat < 2 ^ 32 → RequestExact content size offset) ∧
    ∀ chunks : Nat → BitVec 64, (∀ k, 0 < (chunks k).toNat ∧ (chunks k).toNat < 2 ^ 32) →
      ∃ rounds, Exits (turn content chunks) .start rounds (.ok content.text) := by
  refine ⟨fun size offset hsize => requestExact content hsize offset, fun chunks hchunks => ?_⟩
  exact reads_content hchunks ⟨Nat.zero_le _, rfl⟩

/-- `file_content` at `0x1000`, zeros around it. -/
def sampleContent : Content where
  text := cstring "Hello from my FUSE filesystem!\n"
  nulFree := by decide
  short := by decide
  mem x := (cstring "Hello from my FUSE filesystem!\n").getD (x - 0x1000).toNat 0
  base := 0x1000
  holds i hi := by
    have hlength : (cstring "Hello from my FUSE filesystem!\n").length = 31 := by decide
    have hindex : (0x1000 + BitVec.ofNat 64 i - 0x1000 : Word).toNat = i := by bv_omega
    rw [hindex, List.getD_eq_getElem?_getD, List.getElem?_eq_getElem hi, Option.getD_some]
  terminator := by decide

/-- A page from the third-last byte on, a page from before the start, and a reader
that takes seven bytes at a time. -/
theorem bounded_read_exact_sample :
    RequestExact sampleContent 4096 28 ∧ RequestExact sampleContent 4096 (-1) ∧
      ∃ rounds, Exits (turn sampleContent fun _ => 7) .start rounds (.ok sampleContent.text) :=
  ⟨(bounded_read_exact sampleContent).1 4096 28 (by decide),
    (bounded_read_exact sampleContent).1 4096 (-1) (by decide),
    (bounded_read_exact sampleContent).2 (fun _ => 7) (fun _ => by decide)⟩

end CsInternal.Io.BoundedRead
