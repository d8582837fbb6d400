import Mathlib.Algebra.Group.Nat.Defs
import Mathlib.Data.List.Basic

/-!
# Little-endian words in a byte memory

A memory of bytes with 64-bit addresses that wrap around, and the 8-byte
accesses to it.  A region is given by its first address and its length; offsets
are taken modulo the address space, so that no access needs a bound.
-/

namespace CsInternal.Library.ByteMemory

abbrev Word := BitVec 64

abbrev Memory := Word → BitVec 8

/-- Byte `i` of a word, counted from the least significant one. -/
def byteOf (w : Word) (i : Nat) : BitVec 8 := w.extractLsb' (8 * i) 8

/-- The `n` bytes from `a` on, the first of them least significant. -/
def readBytes (m : Memory) (a : Word) : (n : Nat) → BitVec (8 * n)
  | 0 => 0#0
  | n + 1 => (m (a + BitVec.ofNat 64 n) ++ readBytes m a n).cast (by omega)

/-- The word at `a`. -/
def readWord (m : Memory) (a : Word) : Word := readBytes m a 8

/-- The address lies in the `n` bytes from `a` on. -/
def Within (a : Word) (n : Nat) (x : Word) : Prop := (x - a).toNat < n

instance (a : Word) (n : Nat) (x : Word) : Decidable (Within a n x) :=
  inferInstanceAs (Decidable ((x - a).toNat < n))

/-- Store the word `w` at `a`. -/
def writeWord (m : Memory) (a : Word) (w : Word) : Memory :=
  fun x => if Within a 8 x then byteOf w (x - a).toNat else m x

theorem word_ext {v w : Word} (h : ∀ i, i < 8 → byteOf v i = byteOf w i) : v = w := by
  ext j hj
  have hbyte := congrArg (fun b => b.getLsbD (j % 8)) (h (j / 8) (by omega))
  have hindex : 8 * (j / 8) + j % 8 = j := by omega
  have hlt : j % 8 < 8 := by omega
  simpa [byteOf, hindex, hlt, BitVec.getLsbD_eq_getElem hj] using hbyte

theorem getLsbD_readBytes (m : Memory) (a : Word) {n k : Nat} (hk : k < 8 * n) :
    (readBytes m a n).getLsbD k = (m (a + BitVec.ofNat 64 (k / 8))).getLsbD (k % 8) := by
  induction n with
  | zero => omega
  | succ n ih =>
      rw [readBytes, BitVec.getLsbD_cast, BitVec.getLsbD_append]
      split
      · rename_i hlow
        exact ih hlow
      · have hbyte : k / 8 = n := by omega
        have hbit : k - 8 * n = k % 8 := by omega
        rw [hbyte, hbit]

theorem byteOf_readWord (m : Memory) (a : Word) {i : Nat} (hi : i < 8) :
    byteOf (readWord m a) i = m (a + BitVec.ofNat 64 i) := by
  ext j hj
  have hlt : 8 * i + j < 8 * 8 := by omega
  have hbyte : (8 * i + j) / 8 = i := by omega
  have hbit : (8 * i + j) % 8 = j := by omega
  have hread := getLsbD_readBytes m a hlt
  rw [hbyte, hbit] at hread
  rw [byteOf, BitVec.getElem_extractLsb', readWord, hread, BitVec.getLsbD_eq_getElem hj]

/-- A word depends on its eight bytes alone. -/
theorem readWord_congr {m m' : Memory} {a : Word} (h : ∀ x, Within a 8 x → m x = m' x) :
    readWord m a = readWord m' a := by
  refine word_ext fun i hi => ?_
  rw [byteOf_readWord m a hi, byteOf_readWord m' a hi]
  refine h _ ?_
  have hback : a + BitVec.ofNat 64 i - a = BitVec.ofNat 64 i := by
    rw [BitVec.add_comm, BitVec.add_sub_cancel]
  rw [Within, hback, BitVec.toNat_ofNat]
  omega

theorem readWord_eq_iff {m : Memory} {a w : Word} :
    readWord m a = w ↔ ∀ x, Within a 8 x → m x = byteOf w (x - a).toNat := by
  constructor
  · rintro rfl x hx
    rw [byteOf_readWord m a hx, BitVec.ofNat_toNat, BitVec.setWidth_eq, BitVec.add_comm,
      BitVec.sub_add_cancel]
  · intro h
    refine word_ext fun i hi => ?_
    have hback : a + BitVec.ofNat 64 i - a = BitVec.ofNat 64 i := by
      rw [BitVec.add_comm, BitVec.add_sub_cancel]
    have hoffset : (a + BitVec.ofNat 64 i - a).toNat = i := by
      rw [hback, BitVec.toNat_ofNat]
      omega
    rw [byteOf_readWord m a hi, h _ (by rw [Within, hoffset]; exact hi), hoffset]

theorem writeWord_within (m : Memory) {a x : Word} (w : Word) (hx : Within a 8 x) :
    writeWord m a w x = byteOf w (x - a).toNat := if_pos hx

theorem writeWord_outside (m : Memory) {a x : Word} (w : Word) (hx : ¬ Within a 8 x) :
    writeWord m a w x = m x := if_neg hx

@[simp] theorem readWord_writeWord (m : Memory) (a w : Word) :
    readWord (writeWord m a w) a = w :=
  readWord_eq_iff.mpr fun _ hx => writeWord_within m w hx

/-- Two regions without a common address. -/
def Apart (a : Word) (n : Nat) (b : Word) (k : Nat) : Prop :=
  ∀ x, Within a n x → ¬ Within b k x

theorem Apart.symm {a b : Word} {n k : Nat} (h : Apart a n b k) : Apart b k a n :=
  fun x hb ha => h x ha hb

theorem Within.mono {a x : Word} {n k : Nat} (hle : n ≤ k) (hx : Within a n x) : Within a k x :=
  Nat.lt_of_lt_of_le hx hle

theorem readWord_writeWord_of_apart {m : Memory} {a b w : Word} (h : Apart a 8 b 8) :
    readWord (writeWord m b w) a = readWord m a :=
  readWord_congr fun x hx => writeWord_outside m w (h x hx)

/-- A part of a region lies in the region. -/
theorem Within.of_part {a x : Word} {n d k : Nat} (hfit : d + k ≤ n)
    (hx : Within (a + BitVec.ofNat 64 d) k x) : Within a n x := by
  rw [Within] at hx ⊢
  bv_omega

/-- Store words one after the other. -/
def writeWords (m : Memory) (a : Word) : List Word → Memory
  | [] => m
  | w :: ws => writeWords (writeWord m a w) (a + 8) ws

theorem writeWords_outside (m : Memory) {a x : Word} (ws : List Word)
    (hx : ¬ Within a (8 * ws.length) x) : writeWords m a ws x = m x := by
  induction ws generalizing m a with
  | nil => rfl
  | cons w ws ih =>
      rw [List.length_cons] at hx
      have hhead : ¬ Within a 8 x := fun h => hx (by rw [Within] at h ⊢; omega)
      have htail : ¬ Within (a + 8) (8 * ws.length) x := by
        intro h
        have hpart : Within (a + BitVec.ofNat 64 8) (8 * ws.length) x := h
        exact hx (hpart.of_part (by omega))
      rw [writeWords, ih _ htail, writeWord_outside m w hhead]

theorem readWord_writeWords (m : Memory) (a : Word) (ws : List Word)
    (hfit : 8 * ws.length ≤ 2 ^ 64) {i : Nat} (hi : i < ws.length) :
    readWord (writeWords m a ws) (a + BitVec.ofNat 64 (8 * i)) = ws[i] := by
  induction ws generalizing m a i with
  | nil => exact absurd hi (Nat.not_lt_zero i)
  | cons w ws ih =>
      rw [List.length_cons] at hfit hi
      cases i with
      | zero =>
          rw [Nat.mul_zero, BitVec.add_zero, writeWords]
          have hkeep : ∀ x, Within a 8 x →
              writeWords (writeWord m a w) (a + 8) ws x = writeWord m a w x := by
            intro x hx
            refine writeWords_outside _ ws fun h => ?_
            rw [Within] at hx h
            bv_omega
          rw [readWord_congr hkeep, readWord_writeWord]
          rfl
      | succ i =>
          have hnext : a + BitVec.ofNat 64 (8 * (i + 1)) = a + 8 + BitVec.ofNat 64 (8 * i) := by
            bv_omega
          rw [hnext, writeWords, ih _ _ (by omega) (by omega)]
          rfl

/-- `w` with its lowest byte replaced. -/
def setLowByte (w : Word) (b : BitVec 8) : Word := (w &&& ~~~0xff) ||| b.setWidth 64

theorem getLsbD_mask {k : Nat} (hk : k < 64) :
    (~~~(0xff : Word)).getLsbD k = decide (8 ≤ k) := by
  revert k
  decide

theorem byteOf_setLowByte_zero (w : Word) (b : BitVec 8) : byteOf (setLowByte w b) 0 = b := by
  ext j hj
  have hlt : j < 64 := by omega
  simp only [byteOf, setLowByte, BitVec.getElem_extractLsb', BitVec.getLsbD_or,
    BitVec.getLsbD_and, BitVec.getLsbD_setWidth, Nat.mul_zero, Nat.zero_add, getLsbD_mask hlt]
  have hlow : ¬ 8 ≤ j := by omega
  simp [hlt, hlow, hj]

theorem byteOf_setLowByte (w : Word) (b : BitVec 8) {i : Nat} (hpos : 1 ≤ i) (hi : i < 8) :
    byteOf (setLowByte w b) i = byteOf w i := by
  ext j hj
  have hlt : 8 * i + j < 64 := by omega
  have hhigh : 8 ≤ 8 * i + j := by omega
  simp only [byteOf, setLowByte, BitVec.getElem_extractLsb', BitVec.getLsbD_or,
    BitVec.getLsbD_and, BitVec.getLsbD_setWidth, getLsbD_mask hlt]
  simp [hhigh]

theorem getLsbD_low {k : Nat} (hk : k < 8) : (0xff : Word).getLsbD k = true := by
  revert k
  decide

theorem lowByte_eq (w : Word) : (w &&& 0xff).setWidth 8 = byteOf w 0 := by
  ext j hj
  simp only [byteOf, BitVec.getElem_setWidth, BitVec.getElem_extractLsb', BitVec.getLsbD_and,
    getLsbD_low hj, Bool.and_true, Nat.mul_zero, Nat.zero_add]

/-- The lowest byte of a word is the byte at its address. -/
theorem lowByte_readWord (m : Memory) (a : Word) : (readWord m a &&& 0xff).setWidth 8 = m a := by
  rw [lowByte_eq, byteOf_readWord m a (by decide), BitVec.add_zero]

/-- Reading a word, replacing its lowest byte and storing it back replaces one
byte of the memory. -/
theorem writeWord_setLowByte (m : Memory) (a : Word) (b : BitVec 8) :
    writeWord m a (setLowByte (readWord m a) b) = Function.update m a b := by
  funext x
  by_cases hx : Within a 8 x
  · rw [writeWord_within m _ hx]
    by_cases heq : x = a
    · subst heq
      rw [BitVec.sub_self, Function.update_self]
      exact byteOf_setLowByte_zero _ b
    · have hpos : 1 ≤ (x - a).toNat := by bv_omega
      rw [byteOf_setLowByte _ b hpos hx, Function.update_of_ne heq]
      exact (readWord_eq_iff.mp rfl x hx).symm
  · have hne : x ≠ a := by
      rintro rfl
      exact hx (by rw [Within, BitVec.sub_self]; decide)
    rw [writeWord_outside m _ hx, Function.update_of_ne hne]

end CsInternal.Library.ByteMemory
