import Mathlib.Algebra.Group.Nat.Defs

/-!
# Network byte order

Fields of a byte buffer as a little-endian machine loads them, the conversions
from network order, and the big-endian numbers that come out.
-/

namespace CsInternal.Library.NetworkOrder

abbrev Buffer := Nat → BitVec 8

/-- A 16-bit load, least significant byte first. -/
def load16 (b : Buffer) (i : Nat) : BitVec 16 := b (i + 1) ++ b i

def load32 (b : Buffer) (i : Nat) : BitVec 32 := load16 b (i + 2) ++ load16 b i

def ntohs (x : BitVec 16) : BitVec 16 := x.extractLsb' 0 8 ++ x.extractLsb' 8 8

def ntohl (x : BitVec 32) : BitVec 32 :=
  ntohs (x.extractLsb' 0 16) ++ ntohs (x.extractLsb' 16 16)

/-- The number that two bytes stand for on the network. -/
def be16 (b : Buffer) (i : Nat) : BitVec 16 := b i ++ b (i + 1)

def be32 (b : Buffer) (i : Nat) : BitVec 32 := be16 b i ++ be16 b (i + 2)

@[simp] theorem ntohs_load16 (b : Buffer) (i : Nat) : ntohs (load16 b i) = be16 b i := by
  rw [ntohs, load16, BitVec.extractLsb'_append_eq_right, BitVec.extractLsb'_append_eq_left, be16]

@[simp] theorem ntohl_load32 (b : Buffer) (i : Nat) : ntohl (load32 b i) = be32 b i := by
  rw [ntohl, load32, BitVec.extractLsb'_append_eq_right, BitVec.extractLsb'_append_eq_left,
    ntohs_load16, ntohs_load16, be32]

/-- The bytes of a number are the bytes it is loaded from. -/
theorem be16_eq_append_iff {b : Buffer} {i : Nat} {hi lo : BitVec 8} :
    be16 b i = hi ++ lo ↔ b i = hi ∧ b (i + 1) = lo := by
  constructor
  · intro h
    have hhigh := congrArg (BitVec.extractLsb' 8 8) h
    have hlow := congrArg (BitVec.extractLsb' 0 8) h
    rw [be16, BitVec.extractLsb'_append_eq_left, BitVec.extractLsb'_append_eq_left] at hhigh
    rw [be16, BitVec.extractLsb'_append_eq_right, BitVec.extractLsb'_append_eq_right] at hlow
    exact ⟨hhigh, hlow⟩
  · rintro ⟨hhigh, hlow⟩
    rw [be16, hhigh, hlow]

/-- A load without a conversion is right about two equal bytes alone. -/
theorem load16_eq_be16_iff {b : Buffer} {i : Nat} : load16 b i = be16 b i ↔ b i = b (i + 1) := by
  rw [eq_comm, load16, be16_eq_append_iff]
  exact ⟨fun h => h.1, fun h => ⟨h, h.symm⟩⟩

theorem toNat_load16 (b : Buffer) (i : Nat) :
    (load16 b i).toNat = (b i).toNat + 2 ^ 8 * (b (i + 1)).toNat := by
  rw [load16, BitVec.toNat_append, ← Nat.shiftLeft_add_eq_or_of_lt (b i).isLt, Nat.shiftLeft_eq]
  omega

theorem toNat_load32 (b : Buffer) (i : Nat) :
    (load32 b i).toNat = (b i).toNat + 2 ^ 8 * (b (i + 1)).toNat + 2 ^ 16 * (b (i + 2)).toNat +
      2 ^ 24 * (b (i + 3)).toNat := by
  have hindex : i + 2 + 1 = i + 3 := rfl
  rw [load32, BitVec.toNat_append, ← Nat.shiftLeft_add_eq_or_of_lt (load16 b i).isLt,
    Nat.shiftLeft_eq, toNat_load16, toNat_load16, hindex]
  omega

/-- The bytes of a 32-bit load, by shift and mask. -/
theorem load32_byte (b : Buffer) (i : Nat) {k : Nat} (hk : k < 4) :
    (load32 b i >>> (8 * k) &&& 0xFF).toNat = (b (i + k)).toNat := by
  have hmask : (load32 b i >>> (8 * k) &&& 0xFF).toNat =
      (load32 b i).toNat / 2 ^ (8 * k) % 2 ^ 8 := by
    rw [BitVec.toNat_and, BitVec.toNat_ushiftRight, Nat.shiftRight_eq_div_pow]
    exact Nat.and_two_pow_sub_one_eq_mod _ 8
  have hbytes : ∀ j, (b j).toNat < 2 ^ 8 := fun j => (b j).isLt
  have h0 := hbytes i
  have h1 := hbytes (i + 1)
  have h2 := hbytes (i + 2)
  have h3 := hbytes (i + 3)
  have hcases : k = 0 ∨ k = 1 ∨ k = 2 ∨ k = 3 := by omega
  rw [hmask, toNat_load32]
  rcases hcases with rfl | rfl | rfl | rfl <;>
    simp only [Nat.reduceMul, Nat.reducePow, Nat.add_zero] <;> omega

/-- The buffers have the same first `n` bytes. -/
def Agree (n : Nat) (b b' : Buffer) : Prop := ∀ i < n, b i = b' i

variable {b b' : Buffer} {n i : Nat}

theorem Agree.be16 (h : Agree n b b') (hi : i + 2 ≤ n) : be16 b i = be16 b' i := by
  rw [NetworkOrder.be16, NetworkOrder.be16, h i (by omega), h (i + 1) (by omega)]

theorem Agree.be32 (h : Agree n b b') (hi : i + 4 ≤ n) : be32 b i = be32 b' i := by
  rw [NetworkOrder.be32, NetworkOrder.be32, h.be16 (by omega), h.be16 (by omega)]

theorem Agree.load32 (h : Agree n b b') (hi : i + 4 ≤ n) : load32 b i = load32 b' i := by
  simp only [NetworkOrder.load32, load16, h i (by omega), h (i + 1) (by omega),
    h (i + 2) (by omega), h (i + 2 + 1) (by omega)]

/-- The first `n` bytes of one buffer in front of the rest of another. -/
def splice (n : Nat) (front rest : Buffer) : Buffer := fun i => if i < n then front i else rest i

theorem agree_splice (n : Nat) (front rest : Buffer) : Agree n front (splice n front rest) :=
  fun _ hi => (if_pos hi).symm

end CsInternal.Library.NetworkOrder
