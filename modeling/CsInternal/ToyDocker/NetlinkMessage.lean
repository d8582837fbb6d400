import CsInternal.Library.Attributes
import CsInternal.Library.Transition

/-!
# The messages of `nl.c`

A message is one block of bytes: a header, whose first field counts the bytes that
are in use, and room behind them.  The functions that add to a message test the
room and store through pointers into the block; a store outside it has no meaning.
-/

namespace CsInternal.ToyDocker.NetlinkMessage

open CsInternal.Library CsInternal.Library.Attributes

/-- A string of C, without the zero at its end. -/
structure CString where
  bytes : List Byte
  noNul : 0 ∉ bytes

def strlen (string : CString) : Nat := string.bytes.length

def ENOMEM : Int := 12

/-- `NLMSG_ALIGN`: the constant 4 of the mask is unsigned, so that the mask has 32
bits for a `size_t` too. -/
def nlmsgAlign (n : Nat) : Nat := (n + 3) % 2 ^ 32 / 4 * 4

def rtaAlign (n : Nat) : Nat := nlmsgAlign n

/-- `RTA_LENGTH` of a `size_t` -/
def rtaLength (n : Nat) : Nat := (4 + n) % 2 ^ 64

/-- `struct nlmsg`, with the bytes of the block that `nlmsghdr` points to -/
structure Nlmsg where
  nlmsghdr : List Byte
  cap : Nat
  deriving DecidableEq, Repr

namespace Nlmsg

def nlmsgLen (nlmsg : Nlmsg) : Nat := fromLE (load nlmsg.nlmsghdr 0 4)

def nlmsgType (nlmsg : Nlmsg) : Nat := fromLE (load nlmsg.nlmsghdr 4 2)

/-- A store through a pointer into the block, given by its distance to the header. -/
def store (nlmsg : Nlmsg) (offset : Nat) (bytes : List Byte) : Option Nlmsg :=
  (Attributes.store nlmsg.nlmsghdr offset bytes).map fun block => { nlmsg with nlmsghdr := block }

def setLen (nlmsg : Nlmsg) (n : Nat) : Option Nlmsg := nlmsg.store 0 (toLE 4 n)
def setType (nlmsg : Nlmsg) (n : Nat) : Option Nlmsg := nlmsg.store 4 (toLE 2 n)
def setFlags (nlmsg : Nlmsg) (n : Nat) : Option Nlmsg := nlmsg.store 6 (toLE 2 n)

/-- The bytes that are in use. -/
def used (nlmsg : Nlmsg) : List Byte := nlmsg.nlmsghdr.take nlmsg.nlmsgLen

/-- `NLMSG_TAIL` -/
def tail (nlmsg : Nlmsg) : Nat := nlmsgAlign nlmsg.nlmsgLen

end Nlmsg

def nlaPut (nlmsg : Nlmsg) (attr : BitVec 32) (data : List Byte) : Option (Int × Nlmsg) :=
  let rtalen := rtaLength data.length
  let tlen := nlmsgAlign nlmsg.nlmsgLen + rtaAlign rtalen
  if nlmsg.cap < tlen then some (-ENOMEM, nlmsg)
  else do
    let rta := nlmsg.tail
    let nlmsg ← nlmsg.store (rta + 2) (toLE 2 attr.toNat)
    let nlmsg ← nlmsg.store rta (toLE 2 rtalen)
    let nlmsg ← nlmsg.store (rta + 4) data
    let nlmsg ← nlmsg.setLen tlen
    some (0, nlmsg)

def nlaPutBuffer (nlmsg : Nlmsg) (attr : BitVec 32) (data : List Byte) : Option (Int × Nlmsg) :=
  nlaPut nlmsg attr data

/-- The zero at the end of the string goes into the attribute. -/
def nlaPutString (nlmsg : Nlmsg) (attr : BitVec 32) (string : CString) : Option (Int × Nlmsg) :=
  nlaPut nlmsg attr (string.bytes ++ [0])

def nlaPutU32 (nlmsg : Nlmsg) (attr value : BitVec 32) : Option (Int × Nlmsg) :=
  nlaPut nlmsg attr (toLE 4 value.toNat)

def nlaPutU16 (nlmsg : Nlmsg) (attr : BitVec 32) (value : BitVec 16) : Option (Int × Nlmsg) :=
  nlaPut nlmsg attr (toLE 2 value.toNat)

def nlaPutAttr (nlmsg : Nlmsg) (attr : BitVec 32) : Option (Int × Nlmsg) :=
  nlaPut nlmsg attr []

/-- The pointer is null where there is no room. -/
def nlaBeginNested (nlmsg : Nlmsg) (attr : BitVec 32) : Option (Option Nat × Nlmsg) := do
  let rtattr := nlmsg.tail
  let (err, nlmsg) ← nlaPutAttr nlmsg attr
  some (if err ≠ 0 then none else some rtattr, nlmsg)

def nlaEndNested (nlmsg : Nlmsg) (attr : Nat) : Option Nlmsg :=
  let rtaLen := BitVec.ofNat 16 nlmsg.tail - BitVec.ofNat 16 attr
  nlmsg.store attr (toLE 2 rtaLen.toNat)

/-- With the results of the two calls of `malloc`. -/
def nlmsgAlloc (mallocMessage mallocBlock : Bool) (size : Nat) : Option Nlmsg :=
  let len := 16 + nlmsgAlign size
  if mallocMessage && mallocBlock then
    some ⟨toLE 4 16 ++ List.replicate (len - 4) 0, len⟩
  else none

/-- The pointer is null where there is no room.  The bytes that are reserved stay as
they are, the padding behind them is cleared. -/
def nlmsgReserve (nlmsg : Nlmsg) (len : Nat) : Option (Option Nat × Nlmsg) :=
  let nlmsgLen := nlmsg.nlmsgLen
  let tlen := nlmsgAlign len
  if nlmsg.cap < nlmsgLen + tlen then some (none, nlmsg)
  else do
    let buf := nlmsgLen
    let nlmsg ← nlmsg.setLen (nlmsgLen + tlen)
    let nlmsg ← if len < tlen then nlmsg.store (buf + len) (List.replicate (tlen - len) 0)
      else some nlmsg
    some (some buf, nlmsg)

def nlmsgAllocReserve (mallocMessage mallocBlock : Bool) (size : Nat) : Option Nlmsg := do
  let nlmsg ← nlmsgAlloc mallocMessage mallocBlock size
  nlmsg.setLen nlmsg.cap

/-- A message by its header and all that follows it; no sequence number and no port
are ever put in. -/
def ofParts (len type flags : Nat) (rest : List Byte) (cap : Nat) : Nlmsg where
  nlmsghdr := toLE 4 len ++ (toLE 2 type ++ (toLE 2 flags ++ (List.replicate 8 0 ++ rest)))
  cap := cap

section

variable (len type flags : Nat) (rest : List Byte) (cap : Nat)

theorem ofParts_nlmsgLen (hlen : len < 2 ^ 32) :
    (ofParts len type flags rest cap).nlmsgLen = len := by
  have hload : load (ofParts len type flags rest cap).nlmsghdr 0 4 = toLE 4 len := by
    rw [ofParts, ← List.nil_append (toLE 4 len ++ _)]
    exact load_append _ rfl (length_toLE 4 len)
  rw [Nlmsg.nlmsgLen, hload, fromLE_toLE_of_lt hlen]

theorem ofParts_tail (hlen : len + 3 < 2 ^ 32) (haligned : len % 4 = 0) :
    (ofParts len type flags rest cap).tail = len := by
  rw [Nlmsg.tail, ofParts_nlmsgLen _ _ _ _ _ (by omega), nlmsgAlign]
  omega

theorem length_ofParts : (ofParts len type flags rest cap).nlmsghdr.length = 16 + rest.length := by
  simp only [ofParts, List.length_append, length_toLE, List.length_replicate]
  omega

theorem store_eq {nlmsg : Nlmsg} {offset : Nat} {bytes : List Byte}
    (hfit : offset + bytes.length ≤ nlmsg.nlmsghdr.length) :
    nlmsg.store offset bytes =
      some { nlmsg with nlmsghdr := overwrite nlmsg.nlmsghdr offset bytes } := by
  rw [Nlmsg.store, Attributes.store, if_pos hfit, Option.map_some]

theorem ofParts_store {offset : Nat} {bytes : List Byte}
    (hfit : offset + bytes.length ≤ rest.length) :
    (ofParts len type flags rest cap).store (16 + offset) bytes =
      some (ofParts len type flags (overwrite rest offset bytes) cap) := by
  have h4 : 16 + offset - 4 = 12 + offset := by omega
  have h2 : 12 + offset - 2 = 10 + offset := by omega
  have h2' : 10 + offset - 2 = 8 + offset := by omega
  have h8 : 8 + offset - 8 = offset := by omega
  rw [store_eq (by rw [length_ofParts]; omega), ofParts,
    overwrite_append _ _ (by rw [length_toLE]; omega), length_toLE, h4,
    overwrite_append _ _ (by rw [length_toLE]; omega), length_toLE, h2,
    overwrite_append _ _ (by rw [length_toLE]; omega), length_toLE, h2',
    overwrite_append _ _ (by rw [List.length_replicate]; omega), List.length_replicate, h8]
  rfl

/-- A store behind the first bytes of what follows the header. -/
theorem ofParts_store_append (body : List Byte) (k : Nat) (bytes : List Byte)
    (hfit : k + bytes.length ≤ rest.length) :
    (ofParts len type flags (body ++ rest) cap).store (16 + body.length + k) bytes =
      some (ofParts len type flags (body ++ overwrite rest k bytes) cap) := by
  have hsub : body.length + k - body.length = k := Nat.add_sub_cancel_left _ _
  rw [Nat.add_assoc, ofParts_store _ _ _ _ _ (by rw [List.length_append]; omega),
    overwrite_append _ _ (Nat.le_add_right _ _), hsub]

theorem ofParts_used (body : List Byte) (hlen : 16 + body.length < 2 ^ 32) :
    (ofParts (16 + body.length) type flags (body ++ rest) cap).used =
      toLE 4 (16 + body.length) ++ (toLE 2 type ++ (toLE 2 flags ++
        (List.replicate 8 0 ++ body))) := by
  have hblock : (ofParts (16 + body.length) type flags (body ++ rest) cap).nlmsghdr =
      (toLE 4 (16 + body.length) ++ (toLE 2 type ++ (toLE 2 flags ++
        (List.replicate 8 0 ++ body)))) ++ rest := by
    simp only [ofParts, List.append_assoc]
  have hlength : (toLE 4 (16 + body.length) ++ (toLE 2 type ++ (toLE 2 flags ++
      (List.replicate 8 0 ++ body)))).length = 16 + body.length := by
    simp only [List.length_append, length_toLE, List.length_replicate]
    omega
  rw [Nlmsg.used, ofParts_nlmsgLen _ _ _ _ _ hlen, hblock, List.take_left' hlength]

theorem drop_used (body : List Byte) (hlen : 16 + body.length < 2 ^ 32) :
    (ofParts (16 + body.length) type flags (body ++ rest) cap).used.drop 16 = body := by
  rw [ofParts_used _ _ _ _ _ hlen, ← List.append_assoc, ← List.append_assoc, ← List.append_assoc]
  refine List.drop_left' ?_
  simp only [List.length_append, length_toLE, List.length_replicate]

theorem ofParts_setLen (n : Nat) :
    (ofParts len type flags rest cap).setLen n = some (ofParts n type flags rest cap) := by
  rw [Nlmsg.setLen, store_eq (by rw [length_ofParts, length_toLE]; omega), ofParts,
    overwrite_zero _ (by rw [length_toLE, length_toLE])]
  rfl

theorem ofParts_setType (n : Nat) :
    (ofParts len type flags rest cap).setType n = some (ofParts len n flags rest cap) := by
  rw [Nlmsg.setType, store_eq (by rw [length_ofParts, length_toLE]; omega), ofParts,
    overwrite_append _ _ (Nat.le_of_eq (length_toLE _ _)), length_toLE,
    overwrite_zero _ (by rw [length_toLE, length_toLE])]
  rfl

theorem ofParts_setFlags (n : Nat) :
    (ofParts len type flags rest cap).setFlags n = some (ofParts len type n rest cap) := by
  rw [Nlmsg.setFlags, store_eq (by rw [length_ofParts, length_toLE]; omega), ofParts,
    overwrite_append _ _ (by rw [length_toLE]; omega), length_toLE,
    overwrite_append _ _ (Nat.le_of_eq (length_toLE _ _)), length_toLE,
    overwrite_zero _ (by rw [length_toLE, length_toLE])]
  rfl

end

/-- A message with the room behind it still cleared. -/
structure Draft where
  type : Nat
  flags : Nat
  /-- what stands between the header and the room -/
  body : List Byte
  room : Nat
  aligned : body.length % 4 = 0
  bound : 16 + body.length + room < 2 ^ 32

namespace Draft

variable (d : Draft)

def message : Nlmsg :=
  ofParts (16 + d.body.length) d.type d.flags (d.body ++ List.replicate d.room 0)
    (16 + d.body.length + d.room)

/-- More bytes in the room. -/
def append (bytes : List Byte) (haligned : bytes.length % 4 = 0) (hfit : bytes.length ≤ d.room) :
    Draft where
  type := d.type
  flags := d.flags
  body := d.body ++ bytes
  room := d.room - bytes.length
  aligned := by
    have hbody := d.aligned
    rw [List.length_append]
    omega
  bound := by
    have hbound := d.bound
    rw [List.length_append]
    omega

/-- Other bytes in the body. -/
def put (offset : Nat) (bytes : List Byte) (hfit : offset + bytes.length ≤ d.body.length) :
    Draft where
  type := d.type
  flags := d.flags
  body := overwrite d.body offset bytes
  room := d.room
  aligned := by rw [length_overwrite hfit, d.aligned]
  bound := by rw [length_overwrite hfit]; exact d.bound

theorem nlmsgLen_message : d.message.nlmsgLen = 16 + d.body.length :=
  ofParts_nlmsgLen _ _ _ _ _ (by have hbound := d.bound; omega)

theorem tail_message : d.message.tail = 16 + d.body.length :=
  ofParts_tail _ _ _ _ _ (by have hbound := d.bound; have haligned := d.aligned; omega)
    (by have haligned := d.aligned; omega)

theorem cap_message : d.message.cap = 16 + d.body.length + d.room := rfl

theorem store_message {offset : Nat} {bytes : List Byte}
    (hfit : offset + bytes.length ≤ d.body.length) :
    d.message.store (16 + offset) bytes = some (d.put offset bytes hfit).message := by
  have hlength := length_overwrite hfit
  rw [message, ofParts_store _ _ _ _ _ (by rw [List.length_append]; omega),
    overwrite_append_of_le _ hfit, message]
  simp only [put, hlength]

end Draft

theorem nlmsgAlign_eq {n : Nat} (hn : n + 3 < 2 ^ 32) : nlmsgAlign n = align4 n := by
  rw [nlmsgAlign, align4, Nat.mod_eq_of_lt hn]

/-- The three stores of `nla_put` into cleared bytes. -/
theorem overwrite_attr (type : Nat) (payload rest : List Byte) :
    overwrite (overwrite (overwrite
        (List.replicate (align4 (4 + payload.length)) 0 ++ rest) 2 (toLE 2 type))
        0 (toLE 2 (4 + payload.length))) 4 payload =
      Attr.bytes ⟨type, payload⟩ ++ rest := by
  have hle := le_align4 (4 + payload.length)
  have hzeros : List.replicate (align4 (4 + payload.length)) (0 : Byte) ++ rest =
      List.replicate 2 0 ++ (List.replicate 2 0 ++ (List.replicate payload.length 0 ++
        (List.replicate (align4 (4 + payload.length) - (4 + payload.length)) 0 ++ rest))) := by
    rw [← List.append_assoc, ← List.append_assoc, ← List.append_assoc,
      List.replicate_append_replicate, List.replicate_append_replicate,
      List.replicate_append_replicate]
    congr 2
    omega
  have hheader : toLE 2 (4 + payload.length) ++ toLE 2 type =
      header type payload.length := rfl
  rw [hzeros, overwrite_append _ _ (Nat.le_of_eq List.length_replicate),
    List.length_replicate, Nat.sub_self,
    overwrite_zero _ (by rw [length_toLE, List.length_replicate]),
    overwrite_zero _ (by rw [length_toLE, List.length_replicate]), ← List.append_assoc, hheader,
    overwrite_append _ _ (Nat.le_of_eq (length_header _ _)), length_header, Nat.sub_self,
    overwrite_zero _ (by rw [List.length_replicate]), Attr.bytes, pad, List.length_append,
    length_header, List.append_assoc, List.append_assoc]

/-- An attribute that has room is added to the body. -/
theorem nlaPut_message (d : Draft) (attr : BitVec 32) (data : List Byte)
    (hfit : (Attr.bytes ⟨attr.toNat, data⟩).length ≤ d.room) :
    nlaPut d.message attr data = some (0,
      (d.append (Attr.bytes ⟨attr.toNat, data⟩) (Attr.length_bytes_mod _) hfit).message) := by
  have hlength : (Attr.bytes ⟨attr.toNat, data⟩).length = align4 (4 + data.length) :=
    Attr.length_bytes _
  have hle := le_align4 (4 + data.length)
  have hbound := d.bound
  have haligned := d.aligned
  rw [hlength] at hfit
  have hrtalen : rtaLength data.length = 4 + data.length := by
    rw [rtaLength]
    omega
  have hrta : rtaAlign (4 + data.length) = align4 (4 + data.length) :=
    nlmsgAlign_eq (by rw [align4] at hfit; omega)
  have hhead : nlmsgAlign (16 + d.body.length) = 16 + d.body.length := by
    rw [nlmsgAlign]
    omega
  have hzeros : List.replicate d.room (0 : Byte) =
      List.replicate (align4 (4 + data.length)) 0 ++
        List.replicate (d.room - align4 (4 + data.length)) 0 := by
    rw [List.replicate_append_replicate]
    congr 1
    omega
  have hroom : ¬ d.message.cap < 16 + d.body.length + align4 (4 + data.length) := by
    rw [d.cap_message]
    omega
  have hstore := fun (rest : List Byte) =>
    ofParts_store_append (16 + d.body.length) d.type d.flags rest (16 + d.body.length + d.room)
      d.body
  have hinit : 0 + (toLE 2 (4 + data.length)).length ≤
      (overwrite (List.replicate d.room 0) 2 (toLE 2 attr.toNat)).length := by
    rw [length_overwrite (by rw [length_toLE, List.length_replicate]; omega), length_toLE,
      List.length_replicate]
    omega
  have hdata : 4 + data.length ≤
      (overwrite (overwrite (List.replicate d.room 0) 2 (toLE 2 attr.toNat)) 0
        (toLE 2 (4 + data.length))).length := by
    rw [length_overwrite hinit,
      length_overwrite (by rw [length_toLE, List.length_replicate]; omega), List.length_replicate]
    omega
  have hheader := hstore _ _ _ hinit
  rw [Nat.add_zero] at hheader
  unfold nlaPut
  dsimp only
  rw [d.nlmsgLen_message, d.tail_message, hrtalen, hrta, hhead, if_neg hroom, Draft.message,
    hstore _ _ _ (by rw [length_toLE, List.length_replicate]; omega), Option.bind_eq_bind,
    Option.bind_some, hheader, Option.bind_some, hstore _ _ _ hdata, Option.bind_some,
    ofParts_setLen, Option.bind_some, hzeros, overwrite_attr, Draft.message, Draft.append]
  dsimp only
  rw [List.length_append, hlength, ← List.append_assoc]
  have hcap : 16 + (d.body.length + align4 (4 + data.length)) +
      (d.room - align4 (4 + data.length)) = 16 + d.body.length + d.room := by omega
  rw [hcap, Nat.add_assoc]

theorem nlaPut_full (d : Draft) (attr : BitVec 32) (data : List Byte)
    (hdata : data.length + 7 < 2 ^ 32)
    (hfull : d.room < (Attr.bytes ⟨attr.toNat, data⟩).length) :
    nlaPut d.message attr data = some (-ENOMEM, d.message) := by
  have hlength : (Attr.bytes ⟨attr.toNat, data⟩).length = align4 (4 + data.length) :=
    Attr.length_bytes _
  have hbound := d.bound
  have haligned := d.aligned
  have hrtalen : rtaLength data.length = 4 + data.length := by
    rw [rtaLength]
    omega
  have hrta : rtaAlign (4 + data.length) = align4 (4 + data.length) :=
    nlmsgAlign_eq (by omega)
  have hhead : nlmsgAlign (16 + d.body.length) = 16 + d.body.length := by
    rw [nlmsgAlign]
    omega
  have hroom : d.message.cap < 16 + d.body.length + align4 (4 + data.length) := by
    rw [d.cap_message]
    omega
  unfold nlaPut
  dsimp only
  rw [d.nlmsgLen_message, hrtalen, hrta, hhead, if_pos hroom]

theorem nlaBeginNested_message (d : Draft) (attr : BitVec 32) (hfit : 4 ≤ d.room) :
    nlaBeginNested d.message attr =
      some (some (16 + d.body.length), (d.append (header attr.toNat 0)
        (by rw [length_header]) (by rw [length_header]; exact hfit)).message) := by
  have hput := nlaPut_message d attr [] (by
    rw [Attr.bytes_nil, length_header]
    exact hfit)
  rw [nlaBeginNested, nlaPutAttr, hput, Option.bind_eq_bind, Option.bind_some]
  simp only [ne_eq, not_true_eq_false, ↓reduceIte, d.tail_message, Attr.bytes_nil]

theorem nlaBeginNested_full (d : Draft) (attr : BitVec 32) (hfull : d.room < 4) :
    nlaBeginNested d.message attr = some (none, d.message) := by
  have hput := nlaPut_full d attr [] (by rw [List.length_nil]; omega) (by
    rw [Attr.bytes_nil, length_header]
    exact hfull)
  rw [nlaBeginNested, nlaPutAttr, hput, Option.bind_eq_bind, Option.bind_some]
  rfl

/-- The end of a nested attribute is a store of its length. -/
theorem nlaEndNested_message (d : Draft) {offset : Nat} (hfit : offset + 2 ≤ d.body.length) :
    nlaEndNested d.message (16 + offset) =
      some (d.put offset (toLE 2 (d.body.length - offset))
        (by rw [length_toLE]; exact hfit)).message := by
  have hlen : toLE 2 (BitVec.ofNat 16 (16 + d.body.length) - BitVec.ofNat 16 (16 + offset)).toNat =
      toLE 2 (d.body.length - offset) := by
    rw [← toLE_mod 2 (d.body.length - offset)]
    congr 1
    rw [BitVec.toNat_sub, BitVec.toNat_ofNat, BitVec.toNat_ofNat]
    omega
  rw [nlaEndNested, d.tail_message, hlen, d.store_message]

/-- The room that is reserved is cleared. -/
theorem nlmsgReserve_message (d : Draft) {len : Nat} (hfit : align4 len ≤ d.room) :
    nlmsgReserve d.message len =
      some (some (16 + d.body.length), (d.append (List.replicate (align4 len) 0)
        (by rw [List.length_replicate, align4]; omega)
        (by rw [List.length_replicate]; exact hfit)).message) := by
  have hbound := d.bound
  have hle := le_align4 len
  have halign : nlmsgAlign len = align4 len := nlmsgAlign_eq (by rw [align4] at hfit; omega)
  have hroom : ¬ d.message.cap < 16 + d.body.length + align4 len := by
    rw [d.cap_message]
    omega
  have hmessage : ofParts (16 + d.body.length + align4 len) d.type d.flags
      (d.body ++ List.replicate d.room 0) (16 + d.body.length + d.room) =
        (d.append (List.replicate (align4 len) 0)
          (by rw [List.length_replicate, align4]; omega)
          (by rw [List.length_replicate]; exact hfit)).message := by
    have hcap : 16 + (d.body.length + align4 len) + (d.room - align4 len) =
        16 + d.body.length + d.room := by omega
    have hsplit : align4 len + (d.room - align4 len) = d.room := by omega
    rw [Draft.message, Draft.append]
    dsimp only
    rw [List.length_append, List.length_replicate, hcap, List.append_assoc,
      List.replicate_append_replicate, hsplit, Nat.add_assoc]
  have hclear : (ofParts (16 + d.body.length + align4 len) d.type d.flags
      (d.body ++ List.replicate d.room 0) (16 + d.body.length + d.room)).store
        (16 + d.body.length + len) (List.replicate (align4 len - len) 0) =
      some (ofParts (16 + d.body.length + align4 len) d.type d.flags
        (d.body ++ List.replicate d.room 0) (16 + d.body.length + d.room)) := by
    rw [ofParts_store_append _ _ _ _ _ _ _ _
      (by rw [List.length_replicate, List.length_replicate]; omega),
      overwrite_replicate _ (by omega)]
  unfold nlmsgReserve
  dsimp only
  rw [d.nlmsgLen_message, halign, if_neg hroom, Draft.message, ofParts_setLen,
    Option.bind_eq_bind, Option.bind_some, hclear, ite_self, Option.bind_some, hmessage]

theorem nlmsgReserve_full (d : Draft) {len : Nat} (hlen : len + 3 < 2 ^ 32)
    (hfull : d.room < align4 len) : nlmsgReserve d.message len = some (none, d.message) := by
  have hroom : d.message.cap < 16 + d.body.length + align4 len := by
    rw [d.cap_message]
    omega
  unfold nlmsgReserve
  dsimp only
  rw [d.nlmsgLen_message, nlmsgAlign_eq hlen, if_pos hroom]

/-- A new message: a header that counts itself alone, and cleared room. -/
def Draft.empty (room : Nat) (hroom : 16 + room < 2 ^ 32) : Draft where
  type := 0
  flags := 0
  body := []
  room := room
  aligned := rfl
  bound := hroom

theorem nlmsgAlloc_eq {size : Nat} (hsize : 16 + nlmsgAlign size < 2 ^ 32) :
    nlmsgAlloc true true size = some (Draft.empty (nlmsgAlign size) hsize).message := by
  have hlength : 16 + nlmsgAlign size - 4 = 2 + (2 + (8 + nlmsgAlign size)) := by omega
  rw [nlmsgAlloc, Draft.empty, Draft.message, ofParts, toLE_zero]
  dsimp only
  rw [hlength, List.nil_append, List.replicate_append_replicate, List.replicate_append_replicate,
    List.replicate_append_replicate]
  rfl

theorem nlmsgAlloc_failed {mallocMessage mallocBlock : Bool} {size : Nat}
    (hfailed : (mallocMessage && mallocBlock) = false) :
    nlmsgAlloc mallocMessage mallocBlock size = none := by
  rw [nlmsgAlloc, hfailed]
  rfl

theorem nlmsgAllocReserve_eq {size : Nat} (hsize : 16 + nlmsgAlign size < 2 ^ 32) :
    nlmsgAllocReserve true true size = some (ofParts (16 + nlmsgAlign size) 0 0
      (List.replicate (nlmsgAlign size) 0) (16 + nlmsgAlign size)) := by
  rw [nlmsgAllocReserve, nlmsgAlloc_eq hsize, Option.bind_eq_bind, Option.bind_some,
    Draft.cap_message, Draft.message, ofParts_setLen]
  rfl

theorem nlmsgAllocReserve_failed {mallocMessage mallocBlock : Bool} {size : Nat}
    (hfailed : (mallocMessage && mallocBlock) = false) :
    nlmsgAllocReserve mallocMessage mallocBlock size = none := by
  rw [nlmsgAllocReserve, nlmsgAlloc_failed hfailed]
  rfl

/-! ## Runs of calls -/

/-- A message that is being built, with the pointers from `nla_begin_nested` that
`nla_end_nested` has not had, the last of them first. -/
structure Builder where
  nlmsg : Nlmsg
  nested : List Nat

inductive Call where
  /-- `nla_put` through any of its callers -/
  | put (attr : BitVec 32) (data : List Byte)
  | beginNested (attr : BitVec 32)
  | endNested
  /-- `nlmsg_reserve` and the stores into what it returns -/
  | reserve (bytes : List Byte)
  deriving DecidableEq, Repr

/-- A call, with whether it found room; a null pointer is not stored through. -/
def Builder.call (b : Builder) : Call → Option (Bool × Builder)
  | .put attr data => do
      let (err, nlmsg) ← nlaPut b.nlmsg attr data
      some (err == 0, { b with nlmsg := nlmsg })
  | .beginNested attr => do
      let (nest, nlmsg) ← nlaBeginNested b.nlmsg attr
      some (nest.isSome, ⟨nlmsg, nest.toList ++ b.nested⟩)
  | .endNested => do
      let attr ← b.nested.head?
      let nlmsg ← nlaEndNested b.nlmsg attr
      some (true, ⟨nlmsg, b.nested.tail⟩)
  | .reserve bytes => do
      let (buf, nlmsg) ← nlmsgReserve b.nlmsg bytes.length
      let stored ← buf.elim (some nlmsg) fun buf => nlmsg.store buf bytes
      some (buf.isSome, { b with nlmsg := stored })

/-- The calls on a message from `nlmsg_alloc(size)`, each with whether it found room. -/
def building (size : Nat) : System Builder (Call × Bool) where
  init b := nlmsgAlloc true true size = some b.nlmsg ∧ b.nested = []
  step b label b' := b.call label.1 = some (label.2, b')

/-- What a call adds to the message. -/
def Call.apply (outline : Outline) : Call → Outline
  | .put attr data => outline.push (.attr attr.toNat data)
  | .beginNested attr => outline.begin attr.toNat
  | .endNested => outline.close
  | .reserve bytes => outline.push (.data bytes)

/-- The bytes that a call needs; the computation of the code does not wrap around as
long as they are fewer than `2 ^ 32`. -/
def Call.need : Call → Nat
  | .put _ data => align4 (4 + data.length)
  | .beginNested _ => 4
  | .endNested => 0
  | .reserve bytes => align4 bytes.length

/-- What calls add to an empty message. -/
def outlineOf (calls : List Call) : Outline :=
  calls.foldl Call.apply (.root [])

/-- The calls that found no room leave nothing behind. -/
def visible : Call × Bool → Option Call
  | (call, true) => some call
  | (_, false) => none

/-- The draft is the outline, in a block of `cap` bytes. -/
structure Draft.Shows (d : Draft) (cap : Nat) (outline : Outline) : Prop where
  type : d.type = 0
  flags : d.flags = 0
  body : d.body = outline.bytes
  cap : 16 + d.body.length + d.room = cap

theorem Draft.Shows.append {d : Draft} {cap : Nat} {outline outline' : Outline}
    {bytes : List Byte} (hshows : d.Shows cap outline) (haligned : bytes.length % 4 = 0)
    (hfit : bytes.length ≤ d.room) (hbytes : outline'.bytes = outline.bytes ++ bytes) :
    (d.append bytes haligned hfit).Shows cap outline' where
  type := hshows.type
  flags := hshows.flags
  body := by
    rw [hbytes, ← hshows.body]
    rfl
  cap := by
    rw [← hshows.cap, Draft.append]
    dsimp only
    rw [List.length_append]
    omega

theorem Draft.Shows.put {d : Draft} {cap offset : Nat} {outline outline' : Outline}
    {bytes : List Byte} (hshows : d.Shows cap outline)
    (hfit : offset + bytes.length ≤ d.body.length)
    (hbytes : overwrite outline.bytes offset bytes = outline'.bytes) :
    (d.put offset bytes hfit).Shows cap outline' where
  type := hshows.type
  flags := hshows.flags
  body := by
    rw [← hbytes, ← hshows.body]
    rfl
  cap := by
    rw [← hshows.cap, Draft.put]
    dsimp only
    rw [length_overwrite hfit]

/-- The message is that of the outline. -/
def Represents (cap : Nat) (b : Builder) (outline : Outline) : Prop :=
  ∃ d : Draft, b.nlmsg = d.message ∧ d.Shows cap outline ∧ b.nested = outline.starts.map (16 + ·)

/-- What a call does to a message that stands for an outline. -/
inductive Effect (cap : Nat) (b : Builder) (outline : Outline) (call : Call) : Prop where
  | fits (b' : Builder) (hroom : b.nlmsg.nlmsgLen + call.need ≤ cap)
      (hcall : b.call call = some (true, b')) (hrep : Represents cap b' (call.apply outline))
  | full (hroom : cap < b.nlmsg.nlmsgLen + call.need) (hcall : b.call call = some (false, b))

section

variable {d : Draft} {cap : Nat} {outline : Outline}

theorem put_effect (hshows : d.Shows cap outline) (attr : BitVec 32) {data : List Byte}
    (hdata : data.length + 7 < 2 ^ 32) :
    Effect cap ⟨d.message, outline.starts.map (16 + ·)⟩ outline (.put attr data) := by
  have hlength : (Attr.bytes ⟨attr.toNat, data⟩).length = align4 (4 + data.length) :=
    Attr.length_bytes _
  have hcap := hshows.cap
  by_cases hfit : (Attr.bytes ⟨attr.toNat, data⟩).length ≤ d.room
  · refine .fits ⟨(d.append _ (Attr.length_bytes_mod _) hfit).message,
      outline.starts.map (16 + ·)⟩ ?_ ?_ ⟨_, rfl, hshows.append _ hfit ?_, ?_⟩
    · rw [Call.need, d.nlmsgLen_message]
      omega
    · rw [Builder.call, nlaPut_message d attr _ hfit]
      rfl
    · rw [Call.apply, Outline.bytes_push, Item.bytes]
    · rw [Call.apply, Outline.starts_push]
  · refine .full ?_ ?_
    · rw [Call.need, d.nlmsgLen_message]
      omega
    · rw [Builder.call, nlaPut_full d attr _ hdata (by omega)]
      rfl

theorem beginNested_effect (hshows : d.Shows cap outline) (attr : BitVec 32) :
    Effect cap ⟨d.message, outline.starts.map (16 + ·)⟩ outline (.beginNested attr) := by
  have hcap := hshows.cap
  by_cases hfit : 4 ≤ d.room
  · refine .fits ⟨(d.append (header attr.toNat 0) (by rw [length_header])
      (by rw [length_header]; exact hfit)).message,
      (16 + d.body.length) :: outline.starts.map (16 + ·)⟩ ?_ ?_
      ⟨_, rfl, hshows.append _ _ (Outline.bytes_begin _ _), ?_⟩
    · rw [Call.need, d.nlmsgLen_message]
      omega
    · rw [Builder.call, nlaBeginNested_message d attr hfit]
      rfl
    · rw [Call.apply, Outline.begin, Outline.starts, List.map_cons, hshows.body]
  · refine .full ?_ ?_
    · rw [Call.need, d.nlmsgLen_message]
      omega
    · rw [Builder.call, nlaBeginNested_full d attr (by omega)]
      rfl

theorem endNested_effect {outer : Outline} {type : Nat} {items : List Item}
    (hshows : d.Shows cap (.nest outer type items)) :
    Effect cap ⟨d.message, (Outline.nest outer type items).starts.map (16 + ·)⟩
      (.nest outer type items) .endNested := by
  have hcap := hshows.cap
  have hbody := hshows.body
  have hlength := congrArg List.length hbody
  rw [Outline.bytes, List.length_append, List.length_append, length_header] at hlength
  have hfit : outer.bytes.length + 2 ≤ d.body.length := by omega
  have hclose := Outline.overwrite_close outer type items []
  rw [List.append_nil, List.append_nil, ← hbody] at hclose
  refine .fits ⟨(d.put outer.bytes.length (toLE 2 (d.body.length - outer.bytes.length))
    (by rw [length_toLE]; exact hfit)).message, outer.starts.map (16 + ·)⟩ ?_ ?_
    ⟨_, rfl, hshows.put _ ?_, ?_⟩
  · rw [Call.need, d.nlmsgLen_message]
    omega
  · rw [Builder.call, Outline.starts, List.map_cons, List.head?_cons, Option.bind_eq_bind,
      Option.bind_some, nlaEndNested_message d hfit]
    rfl
  · rw [← hbody, hclose, Call.apply]
  · rw [Call.apply, Outline.close, Outline.starts_push]

theorem reserve_effect (hshows : d.Shows cap outline) {bytes : List Byte}
    (hbytes : bytes.length + 3 < 2 ^ 32) :
    Effect cap ⟨d.message, outline.starts.map (16 + ·)⟩ outline (.reserve bytes) := by
  have hcap := hshows.cap
  have hle := le_align4 bytes.length
  by_cases hfit : align4 bytes.length ≤ d.room
  · have hzeros : (List.replicate (align4 bytes.length) (0 : Byte)).length % 4 = 0 := by
      rw [List.length_replicate, align4]
      omega
    have hroom : (List.replicate (align4 bytes.length) (0 : Byte)).length ≤ d.room := by
      rw [List.length_replicate]
      exact hfit
    have hinside : d.body.length + bytes.length ≤
        (d.append (List.replicate (align4 bytes.length) 0) hzeros hroom).body.length := by
      rw [Draft.append]
      dsimp only
      rw [List.length_append, List.length_replicate]
      omega
    have hreserved : (d.append _ hzeros hroom).Shows cap
        (outline.push (.data (List.replicate (align4 bytes.length) 0))) :=
      hshows.append hzeros hroom (by rw [Outline.bytes_push, Item.bytes, pad_of_dvd hzeros])
    refine .fits ⟨((d.append _ hzeros hroom).put d.body.length bytes hinside).message,
      outline.starts.map (16 + ·)⟩ ?_ ?_ ⟨_, rfl, hreserved.put hinside ?_, ?_⟩
    · rw [Call.need, d.nlmsgLen_message]
      omega
    · rw [Builder.call, nlmsgReserve_message d hfit, Option.bind_eq_bind, Option.bind_some]
      dsimp only [Option.elim]
      rw [Draft.store_message _ hinside]
      rfl
    · rw [Call.apply, Outline.bytes_push, Outline.bytes_push, Item.bytes, Item.bytes,
        pad_of_dvd hzeros, ← hshows.body, overwrite_append _ _ (Nat.le_refl _), Nat.sub_self,
        overwrite_pad]
    · rw [Call.apply, Outline.starts_push]
  · refine .full ?_ ?_
    · rw [Call.need, d.nlmsgLen_message]
      omega
    · rw [Builder.call, nlmsgReserve_full d hbytes (by omega)]
      rfl

/-- One call, from a message that stands for an outline. -/
theorem call_effect {b : Builder} (hrep : Represents cap b outline) {call : Call}
    (hsmall : call.need < 2 ^ 32) (hopen : call = .endNested → b.nested ≠ []) :
    Effect cap b outline call := by
  obtain ⟨nlmsg, nested⟩ := b
  obtain ⟨d, rfl, hshows, rfl⟩ := hrep
  cases call with
  | put attr data =>
      rw [Call.need, align4] at hsmall
      exact put_effect hshows attr (by omega)
  | beginNested attr => exact beginNested_effect hshows attr
  | endNested =>
      cases outline with
      | root items => exact absurd rfl (hopen rfl)
      | nest outer type items => exact endNested_effect hshows
  | reserve bytes =>
      rw [Call.need, align4] at hsmall
      exact reserve_effect hshows (by omega)

end

/-- After any calls the message is that of the calls that found room. -/
theorem represents_of_run {size : Nat} (hsize : 16 + nlmsgAlign size < 2 ^ 32) {start b : Builder}
    {trace : List (Call × Bool)} (hinit : (building size).init start)
    (hrun : (building size).Run start trace b) (hsmall : ∀ label ∈ trace, label.1.need < 2 ^ 32) :
    Represents (16 + nlmsgAlign size) b (outlineOf (trace.filterMap visible)) := by
  induction hrun with
  | refl =>
      obtain ⟨nlmsg, nested⟩ := start
      obtain ⟨halloc, hnested⟩ := hinit
      rw [nlmsgAlloc_eq hsize] at halloc
      cases halloc
      exact ⟨Draft.empty _ hsize, rfl, ⟨rfl, rfl, rfl, rfl⟩, hnested⟩
  | @tail middle b' trace label _ hstep ih =>
      have hrep := ih fun other hother => hsmall other (List.mem_append_left _ hother)
      have hlabel := hsmall label (List.mem_append_right _ List.mem_cons_self)
      obtain ⟨call, ok⟩ := label
      have hopen : call = .endNested → middle.nested ≠ [] := by
        rintro rfl hnil
        have hnone : middle.call .endNested = none := by
          rw [Builder.call, hnil]
          rfl
        cases hnone.symm.trans hstep
      cases call_effect hrep hlabel hopen with
      | fits b'' _ hcall hrep' =>
          cases hcall.symm.trans hstep
          rw [List.filterMap_append, outlineOf, List.foldl_append]
          exact hrep'
      | full _ hcall =>
          cases hcall.symm.trans hstep
          rw [List.filterMap_append, outlineOf, List.foldl_append]
          exact hrep

theorem Represents.eq_parts {room : Nat} {b : Builder} {outline : Outline}
    (hrep : Represents (16 + room) b outline) :
    outline.bytes.length ≤ room ∧ b.nlmsg = ofParts (16 + outline.bytes.length) 0 0
      (outline.bytes ++ List.replicate (room - outline.bytes.length) 0) (16 + room) := by
  obtain ⟨d, hmessage, ⟨htype, hflags, hbody, hcap⟩, -⟩ := hrep
  have hroom : d.room = room - outline.bytes.length := by
    rw [← hbody]
    omega
  refine ⟨by rw [← hbody]; omega, ?_⟩
  rw [hmessage, Draft.message, htype, hflags, hcap, hroom, hbody]

/-- Whatever is called in whatever order on a message that `nlmsg_alloc` made, the
header counts the bytes of the calls that found room, these stand behind it one
after the other, the rest of the block is clear, and the next call stays inside
the block: it either has room and is carried out, or leaves all as it was. -/
theorem run_message {size : Nat} (hsize : 16 + nlmsgAlign size < 2 ^ 32) {start b : Builder}
    {trace : List (Call × Bool)} (hinit : (building size).init start)
    (hrun : (building size).Run start trace b) (hsmall : ∀ label ∈ trace, label.1.need < 2 ^ 32) :
    (outlineOf (trace.filterMap visible)).bytes.length ≤ nlmsgAlign size ∧
      b.nlmsg.nlmsghdr = toLE 4 (16 + (outlineOf (trace.filterMap visible)).bytes.length) ++
        (List.replicate 12 0 ++ ((outlineOf (trace.filterMap visible)).bytes ++
          List.replicate
            (nlmsgAlign size - (outlineOf (trace.filterMap visible)).bytes.length) 0)) ∧
      ∀ call : Call, call.need < 2 ^ 32 → (call = .endNested → b.nested ≠ []) →
        ∃ ok b', b.call call = some (ok, b') ∧
          (ok = true ↔ b.nlmsg.nlmsgLen + call.need ≤ b.nlmsg.cap) ∧ (ok = false → b' = b) := by
  have hrep := represents_of_run hsize hinit hrun hsmall
  obtain ⟨hle, hparts⟩ := hrep.eq_parts
  have hcap : b.nlmsg.cap = 16 + nlmsgAlign size := by rw [hparts]; rfl
  refine ⟨hle, ?_, ?_⟩
  · rw [hparts, ofParts, toLE_zero, ← List.append_assoc (List.replicate 2 0),
      List.replicate_append_replicate, ← List.append_assoc (List.replicate (2 + 2) 0),
      List.replicate_append_replicate]
  · intro call hcall hopen
    rw [hcap]
    cases call_effect hrep hcall hopen with
    | fits b' hroom hrun _ => exact ⟨true, b', hrun, ⟨fun _ => hroom, fun _ => rfl⟩, nofun⟩
    | full hroom hrun =>
        exact ⟨false, b, hrun, ⟨nofun, fun hle => absurd hle (Nat.not_le.mpr hroom)⟩, fun _ => rfl⟩

/-- The calls of `exampleRun`, of which one finds no room. -/
def exampleTrace : List (Call × Bool) :=
  [(.reserve [7], true), (.beginNested 18, true), (.put 1 [1], true), (.put 2 [2], false),
    (.endNested, true)]

theorem exampleRun : ∃ start b, (building 20).init start ∧
    (building 20).Run start exampleTrace b ∧ b.nested = [] :=
  ⟨⟨⟨toLE 4 16 ++ List.replicate 32 0, 36⟩, []⟩, _, ⟨rfl, rfl⟩,
    .head rfl (.head rfl (.head rfl (.head rfl (.head rfl (.refl _))))), rfl⟩

theorem exampleTrace_small : ∀ label ∈ exampleTrace, label.1.need < 2 ^ 32 := by decide

/-- An attribute that finds no room inside a nested one. -/
theorem run_message_example : ∃ start b, (building 20).init start ∧
    (building 20).Run start exampleTrace b ∧
      (outlineOf (exampleTrace.filterMap visible)).bytes.length ≤ nlmsgAlign 20 := by
  obtain ⟨start, b, hinit, hrun, -⟩ := exampleRun
  exact ⟨start, b, hinit, hrun, (run_message (by decide) hinit hrun exampleTrace_small).1⟩

/-- Once every nested attribute has ended, the reader of the message finds the
attributes that were put, in their order, the nested ones with all that was put
between their begin and their end. -/
theorem run_parse {size : Nat} (hsize : 16 + nlmsgAlign size < 2 ^ 16) {start b : Builder}
    {trace : List (Call × Bool)} (hinit : (building size).init start)
    (hrun : (building size).Run start trace b) (hsmall : ∀ label ∈ trace, label.1.need < 2 ^ 32)
    {front items : List Item} {attrs : List Attr}
    (houtline : outlineOf (trace.filterMap visible) = .root (front ++ items))
    (hattrs : items.map Item.toAttr = attrs.map some)
    (htypes : ∀ attr ∈ attrs, attr.type < 2 ^ 16) :
    parse (b.nlmsg.used.drop (16 + (Item.bytesList front).length)) = some attrs := by
  obtain ⟨hle, hparts⟩ := (represents_of_run (by omega) hinit hrun hsmall).eq_parts
  rw [houtline, Outline.bytes, Item.bytesList_append, List.length_append] at hle
  have hused : b.nlmsg.used.drop (16 + (Item.bytesList front).length) = Item.bytesList items := by
    have hlen : 16 + (Outline.root (front ++ items)).bytes.length < 2 ^ 32 := by
      rw [Outline.bytes, Item.bytesList_append, List.length_append]
      omega
    rw [← List.drop_drop, hparts, houtline, drop_used _ _ _ _ _ hlen, Outline.bytes,
      Item.bytesList_append, List.drop_left]
  rw [hused]
  exact Item.parse_bytesList hattrs (Item.fits_of_bytesList hattrs htypes (by omega))

theorem run_parse_example : ∃ start b, (building 20).init start ∧
    (building 20).Run start exampleTrace b ∧
      parse (b.nlmsg.used.drop (16 + (Item.bytesList [.data [7]]).length)) =
        some [⟨18, Item.bytesList [.attr 1 [1]]⟩] := by
  obtain ⟨start, b, hinit, hrun, -⟩ := exampleRun
  exact ⟨start, b, hinit, hrun, run_parse (by decide) hinit hrun exampleTrace_small
    rfl rfl (by decide)⟩

end CsInternal.ToyDocker.NetlinkMessage
