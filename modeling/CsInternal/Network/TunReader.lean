import CsInternal.Library.NetworkOrder

/-!
# The packet reader `tuntap_test.c`

The loop body of `main` lays a header over the bytes that `read` has left in the
buffer, prints its fields as the machine loads them, and prints what comes behind
20 bytes as the payload.  Addresses are taken apart from their low end, which is
their first byte; the 16-bit numbers are not converted.
-/

namespace CsInternal.Network.TunReader

open CsInternal.Library.NetworkOrder

/-- `struct ip_header`, 20 bytes; the first bit-field is the low half of its byte. -/
structure IpHeader where
  ihl : BitVec 4
  version : BitVec 4
  tos : BitVec 8
  totLen : BitVec 16
  id : BitVec 16
  fragOff : BitVec 16
  ttl : BitVec 8
  protocol : BitVec 8
  check : BitVec 16
  saddr : BitVec 32
  daddr : BitVec 32
  deriving DecidableEq, Repr

/-- The header laid over the buffer. -/
def ipHeader (buffer : Buffer) : IpHeader where
  ihl := (buffer 0).extractLsb' 0 4
  version := (buffer 0).extractLsb' 4 4
  tos := buffer 1
  totLen := load16 buffer 2
  id := load16 buffer 4
  fragOff := load16 buffer 6
  ttl := buffer 8
  protocol := buffer 9
  check := load16 buffer 10
  saddr := load32 buffer 12
  daddr := load32 buffer 16

/-- Pieces of the output: a literal text, a number of `%d`, a byte of `%02X`. -/
inductive Piece where
  | text (s : String)
  | decimal (n : Nat)
  | hex (b : BitVec 8)
  deriving DecidableEq, Repr

/-- A line with one number, or with several and dots between them. -/
def line (label : String) (numbers : List Nat) (rest : String) : List Piece :=
  .text label :: ((numbers.map .decimal).intersperse (.text ".") ++ [.text rest])

/-- The numbers in the lines of `print_ip_header`. -/
structure Fields where
  version : Nat
  headerLength : Nat
  typeOfService : Nat
  totalLength : Nat
  identification : Nat
  ttl : Nat
  protocol : Nat
  checksum : Nat
  sourceIp : List Nat
  destinationIp : List Nat
  deriving DecidableEq, Repr

def Fields.lines (fields : Fields) : List Piece :=
  .text "IP Header\n" ::
    (line "   |-Version        : " [fields.version] "\n" ++
    line "   |-Header Length  : " [fields.headerLength] " Bytes\n" ++
    line "   |-Type Of Service: " [fields.typeOfService] "\n" ++
    line "   |-Total Length   : " [fields.totalLength] " Bytes\n" ++
    line "   |-Identification : " [fields.identification] "\n" ++
    line "   |-TTL            : " [fields.ttl] "\n" ++
    line "   |-Protocol       : " [fields.protocol] "\n" ++
    line "   |-Checksum       : " [fields.checksum] "\n" ++
    line "   |-Source IP      : " fields.sourceIp "\n" ++
    line "   |-Destination IP : " fields.destinationIp "\n")

/-- The four numbers of an address. -/
def dotted (addr : BitVec 32) : List Nat :=
  [(addr &&& 0xFF).toNat, (addr >>> 8 &&& 0xFF).toNat, (addr >>> 16 &&& 0xFF).toNat,
    (addr >>> 24 &&& 0xFF).toNat]

/-- `print_ip_header` -/
def printIpHeader (ip : IpHeader) : List Piece :=
  Fields.lines {
    version := ip.version.toNat
    headerLength := ip.ihl.toNat * 4
    typeOfService := ip.tos.toNat
    totalLength := ip.totLen.toNat
    identification := ip.id.toNat
    ttl := ip.ttl.toNat
    protocol := ip.protocol.toNat
    checksum := ip.check.toNat
    sourceIp := dotted ip.saddr
    destinationIp := dotted ip.daddr }

/-- The loop of `print_payload` from `i` on; `%` of `int`s rounds towards zero. -/
def payloadFrom (packet : Buffer) (offset size i : Int) : List Piece :=
  if i < size then
    .hex (packet i.toNat) ::
      ((if i.tmod 8 = (offset - 1).tmod 8 then [.text "\n\t"] else []) ++
        payloadFrom packet offset size (i + 1))
  else []
termination_by (size - i).toNat
decreasing_by omega

/-- `print_payload` -/
def printPayload (packet : Buffer) (offset size : Int) : List Piece :=
  .text "Data Payload:\n\t" :: payloadFrom packet offset size offset

/-- What the loop body of `main` prints when `read` returns `nread`; it exits at an
error. -/
def report (buffer : Buffer) (nread : Int) : Option (List Piece) :=
  if nread < 0 then none
  else some (printIpHeader (ipHeader buffer) ++ printPayload buffer 20 nread)

/-- IHL, the header length in words of four bytes. -/
def headerWords (packet : Buffer) : Nat := (packet 0).toNat % 16

/-- An IPv4 packet of `n` bytes. -/
structure IPv4Packet (packet : Buffer) (n : Nat) : Prop where
  version : (packet 0).toNat / 16 = 4
  words : 5 ≤ headerWords packet
  fits : 4 * headerWords packet ≤ n
  size : n ≤ 1500

/-- An address, its first byte first. -/
def address (packet : Buffer) (i : Nat) : List Nat :=
  [(packet i).toNat, (packet (i + 1)).toNat, (packet (i + 2)).toNat, (packet (i + 3)).toNat]

/-- The fields of a header, numbers of several bytes big-endian. -/
def decodeHeader (packet : Buffer) : Fields where
  version := (packet 0).toNat / 16
  headerLength := 4 * headerWords packet
  typeOfService := (packet 1).toNat
  totalLength := (be16 packet 2).toNat
  identification := (be16 packet 4).toNat
  ttl := (packet 8).toNat
  protocol := (packet 9).toNat
  checksum := (be16 packet 10).toNat
  sourceIp := address packet 12
  destinationIp := address packet 16

/-- Byte `k` behind `start`, with the line break that follows every eighth byte. -/
def payloadByte (packet : Buffer) (start k : Nat) : List Piece :=
  .hex (packet (start + k)) :: if (k + 1) % 8 = 0 then [.text "\n\t"] else []

/-- The bytes from `start` to `n - 1`, each once. -/
def payloadBytes (packet : Buffer) (start n : Nat) : List Piece :=
  .text "Data Payload:\n\t" :: (List.range (n - start)).flatMap (payloadByte packet start)

/-- What is to be printed of a packet of `n` bytes. -/
def decoded (packet : Buffer) (n : Nat) : List Piece :=
  (decodeHeader packet).lines ++ payloadBytes packet (4 * headerWords packet) n

variable {packet : Buffer} {n : Nat}

theorem dotted_load32 (packet : Buffer) (i : Nat) :
    dotted (load32 packet i) = address packet i := by
  have h0 : (load32 packet i &&& 0xFF).toNat = (packet i).toNat := by
    simpa using load32_byte packet i (k := 0) (by decide)
  have h1 : (load32 packet i >>> 8 &&& 0xFF).toNat = (packet (i + 1)).toNat :=
    load32_byte packet i (k := 1) (by decide)
  have h2 : (load32 packet i >>> 16 &&& 0xFF).toNat = (packet (i + 2)).toNat :=
    load32_byte packet i (k := 2) (by decide)
  have h3 : (load32 packet i >>> 24 &&& 0xFF).toNat = (packet (i + 3)).toNat :=
    load32_byte packet i (k := 3) (by decide)
  rw [dotted, address, h0, h1, h2, h3]

/-- The lines with these three numbers in the place of their own. -/
def Fields.withNumbers (fields : Fields) (totalLength identification checksum : Nat) : Fields :=
  { fields with totalLength, identification, checksum }

theorem Fields.lines_withNumbers_eq_iff (fields : Fields) (length id sum : Nat) :
    (fields.withNumbers length id sum).lines = fields.lines ↔
      length = fields.totalLength ∧ id = fields.identification ∧ sum = fields.checksum := by
  simp [Fields.lines, Fields.withNumbers, line]

theorem Fields.length_lines_withNumbers (fields : Fields) (length id sum : Nat) :
    (fields.withNumbers length id sum).lines.length = fields.lines.length := by
  simp [Fields.lines, Fields.withNumbers, line]

/-- The header is printed right but for the three numbers of two bytes. -/
theorem printIpHeader_eq (packet : Buffer) :
    printIpHeader (ipHeader packet) =
      ((decodeHeader packet).withNumbers (load16 packet 2).toNat (load16 packet 4).toNat
        (load16 packet 10).toNat).lines := by
  have hfirst := (packet 0).isLt
  have hversion : ((packet 0).extractLsb' 4 4).toNat = (packet 0).toNat / 16 := by
    rw [BitVec.extractLsb'_toNat, Nat.shiftRight_eq_div_pow]
    omega
  have hlength : ((packet 0).extractLsb' 0 4).toNat * 4 = 4 * headerWords packet := by
    rw [BitVec.extractLsb'_toNat, headerWords, Nat.shiftRight_zero, Nat.mul_comm]
  rw [printIpHeader]
  refine congrArg Fields.lines ?_
  simp only [ipHeader, Fields.withNumbers, decodeHeader, hversion, hlength, dotted_load32]

theorem header_eq_iff (packet : Buffer) :
    printIpHeader (ipHeader packet) = (decodeHeader packet).lines ↔
      packet 2 = packet 3 ∧ packet 4 = packet 5 ∧ packet 10 = packet 11 := by
  have hnumber (i : Nat) : (load16 packet i).toNat = (be16 packet i).toNat ↔
      packet i = packet (i + 1) := BitVec.toNat_inj.trans load16_eq_be16_iff
  rw [printIpHeader_eq, Fields.lines_withNumbers_eq_iff]
  exact and_congr (hnumber 2) (and_congr (hnumber 4) (hnumber 10))

/-- The loop breaks the line after every eighth byte, counted from the offset. -/
theorem break_iff {offset k : Nat} (hoffset : 1 ≤ offset) :
    ((offset + k : Nat) : Int).tmod 8 = ((offset : Int) - 1).tmod 8 ↔ (k + 1) % 8 = 0 := by
  rw [Int.tmod_eq_emod_of_nonneg (by omega), Int.tmod_eq_emod_of_nonneg (by omega)]
  omega

theorem payloadFrom_eq (packet : Buffer) {offset : Nat} (hoffset : 1 ≤ offset) (k left : Nat) :
    payloadFrom packet offset (offset + k + left : Nat) (offset + k : Nat) =
      (List.range' k left).flatMap (payloadByte packet offset) := by
  induction left generalizing k with
  | zero =>
      rw [payloadFrom, if_neg (by omega)]
      rfl
  | succ left ih =>
      have hnext : ((offset + k : Nat) : Int) + 1 = (offset + (k + 1) : Nat) := by omega
      have hsize : offset + k + (left + 1) = offset + (k + 1) + left := by omega
      rw [payloadFrom, if_pos (by omega), hnext, hsize, ih, List.range'_succ, List.flatMap_cons,
        payloadByte, Int.toNat_natCast, List.cons_append]
      simp only [break_iff hoffset]

/-- From any offset but 0, the loop prints what is asked for. -/
theorem printPayload_eq (packet : Buffer) {offset : Nat} (hoffset : 1 ≤ offset)
    (hsize : offset ≤ n) : printPayload packet offset n = payloadBytes packet offset n := by
  obtain ⟨left, rfl⟩ := Nat.exists_eq_add_of_le hsize
  rw [printPayload, payloadBytes, Nat.add_sub_cancel_left, List.range_eq_range']
  exact congrArg _ (payloadFrom_eq packet hoffset 0 left)

def Piece.isHex : Piece → Bool
  | .hex _ => true
  | _ => false

theorem countP_payloadBytes (packet : Buffer) (start n : Nat) :
    (payloadBytes packet start n).countP Piece.isHex = n - start := by
  have hone : ∀ k, (payloadByte packet start k).countP Piece.isHex = 1 := by
    intro k
    rw [payloadByte]
    split <;> rfl
  rw [payloadBytes, List.countP_cons_of_neg (by decide), List.countP_flatMap]
  simp [Function.comp_def, hone, List.map_const']

/-- The number of bytes shows where the payload starts. -/
theorem payloadBytes_eq_iff {first second : Nat} (hfirst : first ≤ n) (hsecond : second ≤ n) :
    payloadBytes packet first n = payloadBytes packet second n ↔ second = first := by
  constructor
  · intro h
    have hcount := congrArg (List.countP Piece.isHex) h
    rw [countP_payloadBytes, countP_payloadBytes] at hcount
    omega
  · rintro rfl
    rfl

/-! ## The whole packet -/

/--
A packet is decoded exactly if the three numbers that are not converted have two equal
bytes each, and the header is the 20 bytes that the payload is taken to start behind.
-/
theorem tun_decodes_iff (h : IPv4Packet packet n) :
    report packet n = some (decoded packet n) ↔
      (packet 2 = packet 3 ∧ packet 4 = packet 5 ∧ packet 10 = packet 11) ∧
        headerWords packet = 5 := by
  have hwords := h.words
  have hfits := h.fits
  have hshort : 20 ≤ n := by omega
  have hpayload : printPayload packet 20 n = payloadBytes packet 20 n :=
    printPayload_eq packet (by decide) hshort
  have hlength : (printIpHeader (ipHeader packet)).length = (decodeHeader packet).lines.length := by
    rw [printIpHeader_eq]
    exact Fields.length_lines_withNumbers ..
  have hstart : 4 * headerWords packet = 20 ↔ headerWords packet = 5 := by omega
  have hparts : report packet n = some (decoded packet n) ↔
      printIpHeader (ipHeader packet) = (decodeHeader packet).lines ∧
        payloadBytes packet 20 n = payloadBytes packet (4 * headerWords packet) n := by
    rw [report, if_neg (by omega), Option.some_inj, decoded, hpayload]
    constructor
    · exact fun h => List.append_inj h hlength
    · rintro ⟨hheader, hbytes⟩
      rw [hheader, hbytes]
  rw [hparts, header_eq_iff, payloadBytes_eq_iff hshort hfits, hstart]

/-- A datagram of 257 bytes, whose length is the same in both byte orders, from
10.0.0.1 to 10.0.0.199. -/
def datagram : Buffer := fun i =>
  [0x45, 0, 1, 1, 0, 0, 0x40, 0, 64, 17, 0x25, 0x25, 10, 0, 0, 1, 10, 0, 0, 199].getD i 0

theorem tun_decodes_datagram : report datagram 257 = some (decoded datagram 257) :=
  (tun_decodes_iff (n := 257) ⟨by decide, by decide, by decide, by decide⟩).mpr (by decide)

/-- An echo request of 84 bytes, from 10.0.0.1 to 10.0.0.2. -/
def ping : Buffer := fun i =>
  [0x45, 0, 0, 84, 0x12, 0x34, 0x40, 0, 64, 1, 0x14, 0x73, 10, 0, 0, 1, 10, 0, 0, 2,
    8, 0, 0xf7, 0xff].getD i 0

/-- Its length is shown as 21504. -/
theorem ping_not_decoded :
    IPv4Packet ping 84 ∧ report ping 84 ≠ some (decoded ping 84) ∧
      (printIpHeader (ipHeader ping))[11]? = some (.decimal 21504) ∧
      (decodeHeader ping).totalLength = 84 := by
  refine ⟨⟨by decide, by decide, by decide, by decide⟩, ?_, rfl, rfl⟩
  intro h
  have hlength := congrArg (Option.map (·[11]?)) h
  have hshown : (report ping 84).map (·[11]?) = some (some (.decimal 21504)) := rfl
  have hright : (some (decoded ping 84)).map (·[11]?) = some (some (.decimal 84)) := rfl
  rw [hshown, hright] at hlength
  exact absurd hlength (by decide)

end CsInternal.Network.TunReader
