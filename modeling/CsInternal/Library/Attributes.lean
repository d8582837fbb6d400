import Mathlib.Algebra.Group.Nat.Defs
import Mathlib.Data.List.Basic

/-!
# Attributes with a length and a type

An attribute is a 16-bit length that counts its own four bytes of header, a 16-bit
type and a payload, and is filled up to a multiple of four bytes.  Payloads may
again be sequences of attributes, with other data between them; an outline is such
a sequence of which some attributes still lack their end.
-/

namespace CsInternal.Library.Attributes

abbrev Byte := BitVec 8

/-- The low `k` bytes of a number, the lowest first. -/
def toLE : Nat → Nat → List Byte
  | 0, _ => []
  | k + 1, n => BitVec.ofNat 8 n :: toLE k (n / 256)

def fromLE : List Byte → Nat
  | [] => 0
  | b :: bs => b.toNat + 256 * fromLE bs

@[simp] theorem length_toLE (k n : Nat) : (toLE k n).length = k := by
  induction k generalizing n with
  | zero => rfl
  | succ k ih => rw [toLE, List.length_cons, ih]

theorem fromLE_toLE (k n : Nat) : fromLE (toLE k n) = n % 256 ^ k := by
  induction k generalizing n with
  | zero => rw [Nat.pow_zero, Nat.mod_one]; rfl
  | succ k ih =>
      have hbyte : (BitVec.ofNat 8 n).toNat = n % 256 := BitVec.toNat_ofNat n 8
      rw [toLE, fromLE, ih, hbyte, Nat.pow_succ, Nat.mul_comm (256 ^ k) 256, Nat.mod_mul]

theorem fromLE_toLE_of_lt {k n : Nat} (hn : n < 256 ^ k) : fromLE (toLE k n) = n := by
  rw [fromLE_toLE, Nat.mod_eq_of_lt hn]

theorem toLE_mod (k n : Nat) : toLE k (n % 256 ^ k) = toLE k n := by
  induction k generalizing n with
  | zero => rfl
  | succ k ih =>
      have hpow : 256 ^ (k + 1) = 256 * 256 ^ k := by rw [Nat.pow_succ, Nat.mul_comm]
      have hbyte : BitVec.ofNat 8 (n % 256 ^ (k + 1)) = BitVec.ofNat 8 n := by
        refine BitVec.eq_of_toNat_eq ?_
        rw [BitVec.toNat_ofNat, BitVec.toNat_ofNat, hpow]
        exact Nat.mod_mul_right_mod n 256 (256 ^ k)
      rw [toLE, toLE, hbyte, hpow, Nat.mod_mul_right_div_self, ih]

@[simp] theorem toLE_zero (k : Nat) : toLE k 0 = List.replicate k 0 := by
  induction k with
  | zero => rfl
  | succ k ih => rw [toLE, Nat.zero_div, ih, List.replicate_succ]; rfl

/-- The block with `bytes` in place of what stood from `offset` on. -/
def overwrite (block : List Byte) (offset : Nat) (bytes : List Byte) : List Byte :=
  block.take offset ++ bytes ++ block.drop (offset + bytes.length)

/-- A store inside the block; outside it nothing is said. -/
def store (block : List Byte) (offset : Nat) (bytes : List Byte) : Option (List Byte) :=
  if offset + bytes.length ≤ block.length then some (overwrite block offset bytes) else none

def load (block : List Byte) (offset n : Nat) : List Byte := (block.drop offset).take n

theorem length_overwrite {block bytes : List Byte} {offset : Nat}
    (hfit : offset + bytes.length ≤ block.length) :
    (overwrite block offset bytes).length = block.length := by
  rw [overwrite, List.length_append, List.length_append, List.length_take, List.length_drop]
  omega

/-- What stands in front of a store is left alone. -/
theorem overwrite_append {front : List Byte} {offset : Nat} (rest bytes : List Byte)
    (hoffset : front.length ≤ offset) :
    overwrite (front ++ rest) offset bytes =
      front ++ overwrite rest (offset - front.length) bytes := by
  have hdrop : offset + bytes.length - front.length = offset - front.length + bytes.length := by
    omega
  rw [overwrite, overwrite, List.take_append, List.take_of_length_le hoffset, List.drop_append,
    List.drop_eq_nil_of_le (by omega), hdrop, List.nil_append, List.append_assoc,
    List.append_assoc, List.append_assoc]

/-- What stands behind a store is left alone. -/
theorem overwrite_append_of_le {front bytes : List Byte} {offset : Nat} (rest : List Byte)
    (hfit : offset + bytes.length ≤ front.length) :
    overwrite (front ++ rest) offset bytes = overwrite front offset bytes ++ rest := by
  rw [overwrite, overwrite, List.take_append_of_le_length (by omega),
    List.drop_append_of_le_length hfit, List.append_assoc, List.append_assoc, List.append_assoc]

theorem overwrite_zero {old bytes : List Byte} (rest : List Byte)
    (hlength : bytes.length = old.length) : overwrite (old ++ rest) 0 bytes = bytes ++ rest := by
  rw [overwrite, List.take_zero, List.nil_append, Nat.zero_add, hlength, List.drop_left]

/-- A store of the value that is already there. -/
theorem overwrite_replicate {n offset k : Nat} (b : Byte) (hfit : offset + k ≤ n) :
    overwrite (List.replicate n b) offset (List.replicate k b) = List.replicate n b := by
  have hlength : min offset n + k + (n - (offset + k)) = n := by omega
  rw [overwrite, List.take_replicate, List.drop_replicate, List.length_replicate,
    List.replicate_append_replicate, List.replicate_append_replicate, hlength]

theorem load_append {front field : List Byte} {offset n : Nat} (rest : List Byte)
    (hoffset : front.length = offset) (hlength : field.length = n) :
    load (front ++ (field ++ rest)) offset n = field := by
  rw [load, List.drop_left' hoffset, List.take_left' hlength]

/-- A load from the front of a block that the front of `bytes` has been stored to. -/
theorem load_overwrite_take (block : List Byte) {bytes : List Byte} {n offset k : Nat}
    (hn : offset + k ≤ n) (hlength : offset + k ≤ bytes.length) :
    load (overwrite block 0 (bytes.take n)) offset k = load bytes offset k := by
  have hmin : (bytes.take n).length = min n bytes.length := List.length_take
  rw [overwrite, List.take_zero, List.nil_append, load, load,
    List.drop_append_of_le_length (by omega),
    List.take_append_of_le_length (by rw [List.length_drop]; omega), List.drop_take,
    List.take_take]
  congr 1
  omega

/-- The next multiple of four. -/
def align4 (n : Nat) : Nat := (n + 3) / 4 * 4

theorem align4_of_dvd {n : Nat} (hn : n % 4 = 0) : align4 n = n := by
  rw [align4]
  omega

theorem le_align4 (n : Nat) : n ≤ align4 n := by
  rw [align4]
  omega

def pad (bytes : List Byte) : List Byte :=
  bytes ++ List.replicate (align4 bytes.length - bytes.length) 0

@[simp] theorem length_pad (bytes : List Byte) : (pad bytes).length = align4 bytes.length := by
  have hle := le_align4 bytes.length
  rw [pad, List.length_append, List.length_replicate]
  omega

theorem pad_of_dvd {bytes : List Byte} (hlength : bytes.length % 4 = 0) : pad bytes = bytes := by
  rw [pad, align4_of_dvd hlength, Nat.sub_self, List.replicate_zero, List.append_nil]

theorem overwrite_pad (bytes : List Byte) :
    overwrite (List.replicate (align4 bytes.length) 0) 0 bytes = pad bytes := by
  have hle := le_align4 bytes.length
  have hsplit : List.replicate (align4 bytes.length) (0 : Byte) =
      List.replicate bytes.length 0 ++ List.replicate (align4 bytes.length - bytes.length) 0 := by
    rw [List.replicate_append_replicate]
    congr 1
    omega
  rw [hsplit, overwrite_zero _ (by rw [List.length_replicate]), pad]

structure Attr where
  type : Nat
  payload : List Byte
  deriving DecidableEq, Repr

/-- The header of an attribute with a payload of `length` bytes. -/
def header (type length : Nat) : List Byte := toLE 2 (4 + length) ++ toLE 2 type

def Attr.bytes (attr : Attr) : List Byte :=
  pad (header attr.type attr.payload.length ++ attr.payload)

def encode (attrs : List Attr) : List Byte := attrs.flatMap Attr.bytes

/-- Length and type fit their fields. -/
structure Attr.Fits (attr : Attr) : Prop where
  type : attr.type < 2 ^ 16
  length : 4 + attr.payload.length < 2 ^ 16

/-- Read attributes up to the end of the bytes. -/
def parse (bytes : List Byte) : Option (List Attr) :=
  if bytes = [] then some []
  else if 4 ≤ fromLE (bytes.take 2) ∧ align4 (fromLE (bytes.take 2)) ≤ bytes.length then
    (parse (bytes.drop (align4 (fromLE (bytes.take 2))))).map
      (⟨fromLE ((bytes.drop 2).take 2), (bytes.take (fromLE (bytes.take 2))).drop 4⟩ :: ·)
  else none
termination_by bytes.length
decreasing_by
  rename_i hlength
  have hle := le_align4 (fromLE (bytes.take 2))
  rw [List.length_drop]
  omega

@[simp] theorem length_header (type length : Nat) : (header type length).length = 4 := by
  rw [header, List.length_append, length_toLE, length_toLE]

theorem Attr.length_bytes (attr : Attr) : attr.bytes.length = align4 (4 + attr.payload.length) := by
  rw [Attr.bytes, length_pad, List.length_append, length_header]

theorem Attr.bytes_nil (type : Nat) : Attr.bytes ⟨type, []⟩ = header type 0 := by
  rw [Attr.bytes, List.append_nil, List.length_nil, pad_of_dvd (by rw [length_header])]

theorem Attr.length_bytes_mod (attr : Attr) : attr.bytes.length % 4 = 0 := by
  rw [attr.length_bytes, align4]
  omega

/-- An attribute in front is read back, and the rest is left to be read. -/
theorem parse_bytes_append {attr : Attr} (hfits : attr.Fits) (rest : List Byte) :
    parse (attr.bytes ++ rest) = (parse rest).map (attr :: ·) := by
  have htype := hfits.type
  have hlength := hfits.length
  have hle := le_align4 (4 + attr.payload.length)
  have hbytes := attr.length_bytes
  have hsplit : ∃ padding, attr.bytes = toLE 2 (4 + attr.payload.length) ++
      (toLE 2 attr.type ++ (attr.payload ++ padding)) := by
    rw [Attr.bytes, pad, header, List.append_assoc, List.append_assoc, List.append_assoc]
    exact ⟨_, rfl⟩
  have hnil : attr.bytes ++ rest ≠ [] := by
    refine List.ne_nil_of_length_pos ?_
    rw [List.length_append]
    omega
  have hread : fromLE ((attr.bytes ++ rest).take 2) = 4 + attr.payload.length := by
    obtain ⟨padding, hsplit⟩ := hsplit
    rw [hsplit, List.append_assoc, List.take_left' (length_toLE 2 _)]
    exact fromLE_toLE_of_lt (by omega)
  have hreadType : fromLE (((attr.bytes ++ rest).drop 2).take 2) = attr.type := by
    obtain ⟨padding, hsplit⟩ := hsplit
    rw [hsplit, List.append_assoc, List.drop_left' (length_toLE 2 _), List.append_assoc,
      List.take_left' (length_toLE 2 _)]
    exact fromLE_toLE_of_lt (by omega)
  have hpayload : ((attr.bytes ++ rest).take (4 + attr.payload.length)).drop 4 =
      attr.payload := by
    have hfront : attr.bytes ++ rest = (header attr.type attr.payload.length ++ attr.payload) ++
        (List.replicate (align4 (header attr.type attr.payload.length ++ attr.payload).length -
          (header attr.type attr.payload.length ++ attr.payload).length) 0 ++ rest) := by
      rw [Attr.bytes, pad, List.append_assoc]
    rw [hfront, List.take_left' (by rw [List.length_append, length_header]),
      List.drop_left' (length_header _ _)]
  rw [parse.eq_def, if_neg hnil]
  rw [hread, hreadType, hpayload, List.length_append, if_pos (by omega), ← hbytes,
    List.drop_left]

/-- What has been encoded is read back. -/
theorem parse_encode {attrs : List Attr} (hfits : ∀ attr ∈ attrs, attr.Fits) :
    parse (encode attrs) = some attrs := by
  induction attrs with
  | nil => rw [encode, List.flatMap_nil, parse.eq_def, if_pos rfl]
  | cons attr attrs ih =>
      have hrest := ih fun other hother => hfits other (List.mem_cons_of_mem attr hother)
      rw [encode, List.flatMap_cons, parse_bytes_append (hfits attr List.mem_cons_self)]
      rw [encode] at hrest
      rw [hrest, Option.map_some]

/-! ## Trees of attributes -/

/-- What stands in a payload that is not read as a whole. -/
inductive Item where
  /-- bytes without a header, such as a structure in front of attributes -/
  | data (bytes : List Byte)
  | attr (type : Nat) (payload : List Byte)
  | nest (type : Nat) (items : List Item)
  deriving Repr

namespace Item

mutual

def bytes : Item → List Byte
  | data bytes => pad bytes
  | attr type payload => Attr.bytes ⟨type, payload⟩
  | nest type items => header type (bytesList items).length ++ bytesList items

def bytesList : List Item → List Byte
  | [] => []
  | item :: items => bytes item ++ bytesList items

end

theorem bytesList_append (items others : List Item) :
    bytesList (items ++ others) = bytesList items ++ bytesList others := by
  induction items with
  | nil => rw [List.nil_append, bytesList, List.nil_append]
  | cons item items ih => rw [List.cons_append, bytesList, bytesList, ih, List.append_assoc]

mutual

theorem length_bytes_mod : ∀ item : Item, item.bytes.length % 4 = 0
  | data bytes => by
      rw [Item.bytes, length_pad, align4]
      omega
  | attr type payload => by
      rw [Item.bytes]
      exact Attr.length_bytes_mod ⟨type, payload⟩
  | nest type items => by
      have hitems := length_bytesList_mod items
      rw [Item.bytes, List.length_append, length_header]
      omega

theorem length_bytesList_mod : ∀ items : List Item, (bytesList items).length % 4 = 0
  | [] => by rw [bytesList]; rfl
  | item :: items => by
      have hitem := length_bytes_mod item
      have hitems := length_bytesList_mod items
      rw [bytesList, List.length_append]
      omega

end

/-- An item as the reader of its surroundings sees it. -/
def toAttr : Item → Option Attr
  | data _ => none
  | attr type payload => some ⟨type, payload⟩
  | nest type items => some ⟨type, bytesList items⟩

theorem bytes_of_toAttr {item : Item} {a : Attr} (hattr : item.toAttr = some a) :
    item.bytes = a.bytes := by
  cases item with
  | data bytes => cases hattr
  | attr type payload =>
      cases hattr
      rw [bytes]
  | nest type items =>
      cases hattr
      have hitems := length_bytesList_mod items
      have hlength : (header type (bytesList items).length ++ bytesList items).length % 4 = 0 := by
        rw [List.length_append, length_header]
        omega
      rw [bytes, Attr.bytes, pad_of_dvd hlength]

theorem bytesList_eq_encode {items : List Item} {attrs : List Attr}
    (hattrs : items.map toAttr = attrs.map some) : bytesList items = encode attrs := by
  induction items generalizing attrs with
  | nil =>
      obtain rfl := List.map_eq_nil_iff.mp hattrs.symm
      rw [bytesList, encode, List.flatMap_nil]
  | cons item items ih =>
      obtain ⟨attr, others, rfl, hattr, hothers⟩ := List.map_eq_cons_iff.mp hattrs.symm
      rw [bytesList, bytes_of_toAttr hattr.symm, ih hothers.symm, encode, encode,
        List.flatMap_cons]

/-- Attributes are read back one after the other, the nested ones with the bytes
of what they hold. -/
theorem parse_bytesList {items : List Item} {attrs : List Attr}
    (hattrs : items.map toAttr = attrs.map some) (hfits : ∀ attr ∈ attrs, attr.Fits) :
    parse (bytesList items) = some attrs := by
  rw [bytesList_eq_encode hattrs, parse_encode hfits]

/-- In fewer than `2 ^ 16` bytes every length fits its field. -/
theorem fits_of_bytesList {items : List Item} {attrs : List Attr}
    (hattrs : items.map toAttr = attrs.map some) (htypes : ∀ attr ∈ attrs, attr.type < 2 ^ 16)
    (hlength : (bytesList items).length < 2 ^ 16) : ∀ attr ∈ attrs, attr.Fits := by
  intro attr hattr
  have hle := (List.sublist_flatten_of_mem (List.mem_map_of_mem (f := Attr.bytes) hattr)).length_le
  rw [← List.flatMap_def, ← encode, ← bytesList_eq_encode hattrs, attr.length_bytes] at hle
  have halign := le_align4 (4 + attr.payload.length)
  exact ⟨htypes attr hattr, by omega⟩

end Item

/-- A sequence of items, inside attributes that have begun and not ended. -/
inductive Outline where
  | root (items : List Item)
  | nest (outer : Outline) (type : Nat) (items : List Item)
  deriving Repr

namespace Outline

/-- The bytes so far; an attribute that has not ended counts its header alone. -/
def bytes : Outline → List Byte
  | root items => Item.bytesList items
  | nest outer type items => outer.bytes ++ (header type 0 ++ Item.bytesList items)

def push : Outline → Item → Outline
  | root items, item => root (items ++ [item])
  | nest outer type items, item => nest outer type (items ++ [item])

def begin (outline : Outline) (type : Nat) : Outline := nest outline type []

/-- End the innermost attribute. -/
def close : Outline → Outline
  | root items => root items
  | nest outer type items => outer.push (.nest type items)

/-- Where the attributes that have not ended begin, the innermost first. -/
def starts : Outline → List Nat
  | root _ => []
  | nest outer _ _ => outer.bytes.length :: outer.starts

theorem bytes_push (outline : Outline) (item : Item) :
    (outline.push item).bytes = outline.bytes ++ item.bytes := by
  cases outline with
  | root items =>
      rw [push, bytes, bytes, Item.bytesList_append, Item.bytesList, Item.bytesList,
        List.append_nil]
  | nest outer type items =>
      rw [push, bytes, bytes, Item.bytesList_append, Item.bytesList, Item.bytesList,
        List.append_nil, List.append_assoc, List.append_assoc]

@[simp] theorem starts_push (outline : Outline) (item : Item) :
    (outline.push item).starts = outline.starts := by
  cases outline with
  | root items => rfl
  | nest outer type items => rfl

theorem bytes_begin (outline : Outline) (type : Nat) :
    (outline.begin type).bytes = outline.bytes ++ header type 0 := by
  rw [begin, bytes, Item.bytesList, List.append_nil]

/-- The end of an attribute is a store into its header. -/
theorem overwrite_close (outer : Outline) (type : Nat) (items : List Item) (rest : List Byte) :
    overwrite ((nest outer type items).bytes ++ rest) outer.bytes.length
        (toLE 2 ((nest outer type items).bytes.length - outer.bytes.length)) =
      (nest outer type items).close.bytes ++ rest := by
  have hlength : (nest outer type items).bytes.length - outer.bytes.length =
      4 + (Item.bytesList items).length := by
    rw [bytes, List.length_append, List.length_append, length_header]
    omega
  have hheader : header type 0 = toLE 2 4 ++ toLE 2 type := rfl
  rw [hlength, bytes, List.append_assoc, overwrite_append _ _ (Nat.le_refl _), Nat.sub_self,
    hheader, List.append_assoc, List.append_assoc,
    overwrite_zero _ (by rw [length_toLE, length_toLE]), close, bytes_push, Item.bytes, header,
    List.append_assoc, List.append_assoc, List.append_assoc]

end Outline

end CsInternal.Library.Attributes
