import CsInternal.Library.NetworkOrder

/-!
# The packet printer `minidump.cpp`

The loop body of `main` on the buffer that `recvfrom` has filled: the three
headers are laid over fixed offsets, and a line is printed for the port 8080.
A frame carries its TCP header behind an IP header of variable length, and
bytes may follow the IP packet.  The printer is right about a frame exactly
where the fixed offsets and the received length lead to the same fields.
-/

namespace CsInternal.Network.MiniDump

open CsInternal.Library.NetworkOrder

/-- `struct EthernetHeader`, 14 bytes; the two addresses are not read. -/
structure EthernetHeader where
  etherType : BitVec 16
  deriving DecidableEq, Repr

def sizeofEthernetHeader : Nat := 14

/-- `struct IPv4Header`, 20 bytes, its fields in the byte order of the network. -/
structure IPv4Header where
  ipVhl : BitVec 8
  ipTos : BitVec 8
  ipLen : BitVec 16
  ipId : BitVec 16
  ipOff : BitVec 16
  ipTtl : BitVec 8
  ipP : BitVec 8
  ipSum : BitVec 16
  ipSrc : BitVec 32
  ipDst : BitVec 32
  deriving DecidableEq, Repr

def sizeofIPv4Header : Nat := 20

/-- `struct TCPHeader`, 20 bytes. -/
structure TCPHeader where
  thSport : BitVec 16
  thDport : BitVec 16
  thSeq : BitVec 32
  thAck : BitVec 32
  thOffset : BitVec 8
  thFlags : BitVec 8
  thWin : BitVec 16
  thSum : BitVec 16
  thUrp : BitVec 16
  deriving DecidableEq, Repr

/-- The header laid over the buffer at `i`. -/
def ethernetHeaderAt (buf : Buffer) (i : Nat) : EthernetHeader where
  etherType := load16 buf (i + 12)

def ipv4HeaderAt (buf : Buffer) (i : Nat) : IPv4Header where
  ipVhl := buf i
  ipTos := buf (i + 1)
  ipLen := load16 buf (i + 2)
  ipId := load16 buf (i + 4)
  ipOff := load16 buf (i + 6)
  ipTtl := buf (i + 8)
  ipP := buf (i + 9)
  ipSum := load16 buf (i + 10)
  ipSrc := load32 buf (i + 12)
  ipDst := load32 buf (i + 16)

def tcpHeaderAt (buf : Buffer) (i : Nat) : TCPHeader where
  thSport := load16 buf i
  thDport := load16 buf (i + 2)
  thSeq := load32 buf (i + 4)
  thAck := load32 buf (i + 8)
  thOffset := buf (i + 12)
  thFlags := buf (i + 13)
  thWin := load16 buf (i + 14)
  thSum := load16 buf (i + 16)
  thUrp := load16 buf (i + 18)

def ethertypeIp : BitVec 16 := 0x0800
def ipprotoTcp : BitVec 8 := 6

/-- `tcp_flags` -/
def tcpFlags (flags : BitVec 8) : String :=
  (if flags &&& 0x01 ≠ 0 then "F" else "") ++
  (if flags &&& 0x02 ≠ 0 then "S" else "") ++
  (if flags &&& 0x04 ≠ 0 then "R" else "") ++
  (if flags &&& 0x08 ≠ 0 then "P" else "") ++
  (if flags &&& 0x20 ≠ 0 then "U " else "") ++
  (if flags &&& 0x10 ≠ 0 then "." else "")

/-- What a printed line says; the addresses are as `inet_ntoa` gets them. -/
structure Line where
  src : BitVec 32
  sport : BitVec 16
  dst : BitVec 32
  dport : BitVec 16
  flags : String
  seq : BitVec 32
  ack : BitVec 32
  win : BitVec 16
  /-- a `size_t` -/
  length : BitVec 64
  deriving DecidableEq, Repr

/-- `(tcp_header->th_offset >> 4) * 4`, a `u_char`. -/
def tcpHeaderLength (header : TCPHeader) : BitVec 8 := (header.thOffset >>> 4) * 4

/-- The body of the loop, after `recvfrom` has returned `n` bytes in `buf`. -/
def minidump (buf : Buffer) (n : Nat) : Option Line :=
  let ethHeader := ethernetHeaderAt buf 0
  if ntohs ethHeader.etherType = ethertypeIp then
    let ipv4Header := ipv4HeaderAt buf sizeofEthernetHeader
    if ipv4Header.ipP = ipprotoTcp then
      let tcpHeader := tcpHeaderAt buf (sizeofEthernetHeader + sizeofIPv4Header)
      if ntohs tcpHeader.thDport = 8080 ∨ ntohs tcpHeader.thSport = 8080 then
        some {
          src := ipv4Header.ipSrc
          sport := ntohs tcpHeader.thSport
          dst := ipv4Header.ipDst
          dport := ntohs tcpHeader.thDport
          flags := tcpFlags tcpHeader.thFlags
          seq := ntohl tcpHeader.thSeq
          ack := ntohl tcpHeader.thAck
          win := ntohs tcpHeader.thWin
          length := BitVec.ofNat 64 n - BitVec.ofNat 64 sizeofEthernetHeader -
            BitVec.ofNat 64 sizeofIPv4Header - (tcpHeaderLength tcpHeader).setWidth 64 }
      else none
    else none
  else none

/-- The fields of a TCP header that a line shows, and its data offset in words. -/
structure Segment where
  sport : BitVec 16
  dport : BitVec 16
  seq : BitVec 32
  ack : BitVec 32
  flags : BitVec 8
  win : BitVec 16
  offset : Nat
  deriving DecidableEq, Repr

/-- The TCP header at `i`, by the layout of the protocol. -/
def segmentAt (frame : Buffer) (i : Nat) : Segment where
  sport := be16 frame i
  dport := be16 frame (i + 2)
  seq := be32 frame (i + 4)
  ack := be32 frame (i + 8)
  flags := frame (i + 13)
  win := be16 frame (i + 14)
  offset := (frame (i + 12)).toNat / 16

/-- The length of the IP header in words. -/
def ihl (frame : Buffer) : Nat := (frame 14).toNat % 16

/-- The length of the IP packet. -/
def ipLen (frame : Buffer) : Nat := (be16 frame 16).toNat

/-- The TCP header behind the IP header. -/
def carried (frame : Buffer) : Segment := segmentAt frame (14 + 4 * ihl frame)

/-- A complete Ethernet II frame of `n` bytes with an unfragmented IPv4 packet
that holds a TCP segment; what follows the packet is padding. -/
structure CarriesTcp (frame : Buffer) (n : Nat) : Prop where
  fits : n ≤ 2048
  ethertype : be16 frame 12 = 0x0800
  version : (frame 14).toNat / 16 = 4
  header : 5 ≤ ihl frame
  unfragmented : be16 frame 20 &&& 0x3fff = 0
  protocol : frame 23 = 6
  offset : 5 ≤ (carried frame).offset
  holds : 4 * ihl frame + 4 * (carried frame).offset ≤ ipLen frame
  complete : 14 + ipLen frame ≤ n

def Segment.Named (segment : Segment) : Prop := segment.sport = 8080 ∨ segment.dport = 8080

instance (segment : Segment) : Decidable segment.Named :=
  inferInstanceAs (Decidable (_ ∨ _))

/-- The line tells what the frame carries. -/
structure Tells (frame : Buffer) (line : Line) : Prop where
  sport : line.sport = (carried frame).sport
  dport : line.dport = (carried frame).dport
  seq : line.seq = (carried frame).seq
  ack : line.ack = (carried frame).ack
  flags : line.flags = tcpFlags (carried frame).flags
  win : line.win = (carried frame).win
  length : line.length.toNat + 4 * ihl frame + 4 * (carried frame).offset = ipLen frame

/-- A line is printed for the port 8080, and it tells what the frame carries. -/
def Reports (frame : Buffer) (output : Option Line) : Prop :=
  (output.isSome ↔ (carried frame).Named) ∧ ∀ line, output = some line → Tells frame line

/-! ## Where the printer is right -/

/-- The two headers print the same; only six flags are shown. -/
structure PrintsLike (first second : Segment) : Prop where
  sport : first.sport = second.sport
  dport : first.dport = second.dport
  seq : first.seq = second.seq
  ack : first.ack = second.ack
  flags : first.flags &&& 0x3f = second.flags &&& 0x3f
  win : first.win = second.win

/-- The bytes at the fixed offset, where the printer takes the TCP header to be. -/
def assumed (frame : Buffer) : Segment := segmentAt frame 34

/-- Neither header is of port 8080; or the bytes at the fixed offset show what the
real header shows, and the padding makes up for a difference of the lengths. -/
def OffsetsAgree (frame : Buffer) (n : Nat) : Prop :=
  ¬ (assumed frame).Named ∧ ¬ (carried frame).Named ∨
  (carried frame).Named ∧ PrintsLike (assumed frame) (carried frame) ∧
    n + 4 * ihl frame + 4 * (carried frame).offset =
      34 + ipLen frame + 4 * (assumed frame).offset

/-- Each tested flag has a character of its own. -/
theorem mem_tcpFlags (flags : BitVec 8) :
    ('F' ∈ (tcpFlags flags).toList ↔ flags &&& 0x01 ≠ 0) ∧
    ('S' ∈ (tcpFlags flags).toList ↔ flags &&& 0x02 ≠ 0) ∧
    ('R' ∈ (tcpFlags flags).toList ↔ flags &&& 0x04 ≠ 0) ∧
    ('P' ∈ (tcpFlags flags).toList ↔ flags &&& 0x08 ≠ 0) ∧
    ('U' ∈ (tcpFlags flags).toList ↔ flags &&& 0x20 ≠ 0) ∧
    ('.' ∈ (tcpFlags flags).toList ↔ flags &&& 0x10 ≠ 0) := by
  simp [tcpFlags, apply_ite String.toList]

theorem and_twoPow_ne_zero (flags : BitVec 8) {k : Nat} (hk : k < 8) :
    flags &&& .twoPow 8 k ≠ 0 ↔ flags.getLsbD k := by
  have hpower : BitVec.twoPow 8 k ≠ 0#8 := by
    intro hzero
    have hbit : (BitVec.twoPow 8 k).getLsbD k = true := by simp [hk]
    simp [hzero] at hbit
  rw [BitVec.and_twoPow]
  cases flags.getLsbD k
  · simp
  · simpa using hpower

/-- The tests of the six low bits determine them. -/
theorem flags_eq_of_tests {first second : BitVec 8}
    (htests : ∀ k < 6, first &&& .twoPow 8 k ≠ 0 ↔ second &&& .twoPow 8 k ≠ 0) :
    first &&& 0x3f = second &&& 0x3f := by
  have hbits : ∀ k < 6, first.getLsbD k = second.getLsbD k := by
    intro k hk
    have htest := htests k hk
    rwa [and_twoPow_ne_zero first (by omega), and_twoPow_ne_zero second (by omega),
      ← Bool.eq_iff_iff] at htest
  refine BitVec.eq_of_getLsbD_eq fun k hk => ?_
  rw [BitVec.getLsbD_and, BitVec.getLsbD_and]
  by_cases hlow : k < 6
  · rw [hbits k hlow]
  · have hmask : (0x3f : BitVec 8).getLsbD k = false := by
      obtain rfl | rfl : k = 6 ∨ k = 7 := by omega
      · rfl
      · rfl
    rw [hmask, Bool.and_false, Bool.and_false]

theorem tcpFlags_eq_iff (first second : BitVec 8) :
    tcpFlags first = tcpFlags second ↔ first &&& 0x3f = second &&& 0x3f := by
  constructor
  · intro hsame
    obtain ⟨hF, hS, hR, hP, hU, hA⟩ := mem_tcpFlags first
    rw [hsame] at hF hS hR hP hU hA
    obtain ⟨hF', hS', hR', hP', hU', hA'⟩ := mem_tcpFlags second
    refine flags_eq_of_tests fun k hk => ?_
    obtain rfl | rfl | rfl | rfl | rfl | rfl :
        k = 0 ∨ k = 1 ∨ k = 2 ∨ k = 3 ∨ k = 4 ∨ k = 5 := by omega
    · exact hF.symm.trans hF'
    · exact hS.symm.trans hS'
    · exact hR.symm.trans hR'
    · exact hP.symm.trans hP'
    · exact hA.symm.trans hA'
    · exact hU.symm.trans hU'
  · intro hlow
    have hbit (bit : BitVec 8) (hbit : bit &&& 0x3f = bit) :
        first &&& bit = second &&& bit := by
      rw [← hbit, BitVec.and_comm bit, ← BitVec.and_assoc, hlow, BitVec.and_assoc]
    simp only [tcpFlags, hbit 0x01 rfl, hbit 0x02 rfl, hbit 0x04 rfl, hbit 0x08 rfl,
      hbit 0x10 rfl, hbit 0x20 rfl]

theorem tcpHeaderLength_toNat (frame : Buffer) (i : Nat) :
    (tcpHeaderLength (tcpHeaderAt frame i)).toNat = 4 * (segmentAt frame i).offset := by
  have hbyte := (frame (i + 12)).isLt
  simp [tcpHeaderLength, tcpHeaderAt, segmentAt, Nat.shiftRight_eq_div_pow]
  omega

/-- The `size_t` is the difference of the lengths where that is not negative, and
nowhere else the length of a payload. -/
theorem length_eq_iff {n header payload : Nat} {byte : BitVec 8} (hn : n ≤ 2048)
    (hlow : 34 ≤ n) (hbyte : byte.toNat = header) (hpayload : payload < 65536) :
    (BitVec.ofNat 64 n - BitVec.ofNat 64 sizeofEthernetHeader -
        BitVec.ofNat 64 sizeofIPv4Header - byte.setWidth 64).toNat = payload ↔
      n = 34 + header + payload := by
  have hsmall := byte.isLt
  simp [sizeofEthernetHeader, sizeofIPv4Header, BitVec.toNat_sub]
  omega

variable {frame : Buffer} {n : Nat}

/-- The line for the bytes at the fixed offset. -/
def printed (frame : Buffer) (n : Nat) : Line where
  src := (ipv4HeaderAt frame 14).ipSrc
  sport := (assumed frame).sport
  dst := (ipv4HeaderAt frame 14).ipDst
  dport := (assumed frame).dport
  flags := tcpFlags (assumed frame).flags
  seq := (assumed frame).seq
  ack := (assumed frame).ack
  win := (assumed frame).win
  length := BitVec.ofNat 64 n - BitVec.ofNat 64 sizeofEthernetHeader -
    BitVec.ofNat 64 sizeofIPv4Header - (tcpHeaderLength (tcpHeaderAt frame 34)).setWidth 64

/-- The bytes at the fixed offsets ask for a line. -/
def Shown (frame : Buffer) : Prop :=
  be16 frame 12 = 0x0800 ∧ frame 23 = 6 ∧ (assumed frame).Named

instance (frame : Buffer) : Decidable (Shown frame) :=
  inferInstanceAs (Decidable (_ ∧ _ ∧ _))

theorem minidump_eq_ite (frame : Buffer) (n : Nat) :
    minidump frame n = if Shown frame then some (printed frame n) else none := by
  have htype : ntohs (ethernetHeaderAt frame 0).etherType = ethertypeIp ↔
      be16 frame 12 = 0x0800 := by
    rw [ethernetHeaderAt, ntohs_load16]
    rfl
  have hprotocol : (ipv4HeaderAt frame sizeofEthernetHeader).ipP = ipprotoTcp ↔ frame 23 = 6 :=
    Iff.rfl
  have hports :
      (ntohs (tcpHeaderAt frame (sizeofEthernetHeader + sizeofIPv4Header)).thDport = 8080 ∨
        ntohs (tcpHeaderAt frame (sizeofEthernetHeader + sizeofIPv4Header)).thSport = 8080) ↔
      (assumed frame).Named := by
    rw [tcpHeaderAt, ntohs_load16, ntohs_load16]
    exact or_comm
  simp only [minidump, htype, hprotocol, hports]
  split
  · rename_i htype
    split
    · rename_i hprotocol
      split
      · rename_i hnamed
        rw [if_pos ⟨htype, hprotocol, hnamed⟩]
        simp [printed, assumed, segmentAt, tcpHeaderAt, sizeofEthernetHeader, sizeofIPv4Header]
      · rename_i hnamed
        exact (if_neg fun hshown => hnamed hshown.2.2).symm
    · rename_i hprotocol
      exact (if_neg fun hshown => hprotocol hshown.2.1).symm
  · rename_i htype
    exact (if_neg fun hshown => htype hshown.1).symm

theorem minidump_eq (hframe : CarriesTcp frame n) :
    minidump frame n = if (assumed frame).Named then some (printed frame n) else none := by
  simp only [minidump_eq_ite, Shown, hframe.ethertype, hframe.protocol, true_and]

/-- The line for the bytes at the fixed offset tells what the frame carries
exactly where it shows the same and the lengths come out even. -/
theorem tells_printed_iff (hframe : CarriesTcp frame n) :
    Tells frame (printed frame n) ↔ PrintsLike (assumed frame) (carried frame) ∧
      n + 4 * ihl frame + 4 * (carried frame).offset =
        34 + ipLen frame + 4 * (assumed frame).offset := by
  have hpacket : ipLen frame < 65536 := (be16 frame 16).isLt
  have hcomplete := hframe.complete
  have hholds := hframe.holds
  have hheader := hframe.header
  have hoffset := hframe.offset
  have hlength : (printed frame n).length.toNat =
      ipLen frame - 4 * ihl frame - 4 * (carried frame).offset ↔
      n = 34 + 4 * (assumed frame).offset +
        (ipLen frame - 4 * ihl frame - 4 * (carried frame).offset) :=
    length_eq_iff hframe.fits (by omega) (tcpHeaderLength_toNat frame 34) (by omega)
  constructor
  · intro htells
    have hlen := htells.length
    refine ⟨⟨htells.sport, htells.dport, htells.seq, htells.ack,
      (tcpFlags_eq_iff _ _).1 htells.flags, htells.win⟩, ?_⟩
    have heven := hlength.1 (by omega)
    omega
  · rintro ⟨hsame, heven⟩
    have hlen := hlength.2 (by omega)
    exact {
      sport := hsame.sport
      dport := hsame.dport
      seq := hsame.seq
      ack := hsame.ack
      flags := (tcpFlags_eq_iff _ _).2 hsame.flags
      win := hsame.win
      length := by omega }

theorem PrintsLike.named_iff {first second : Segment} (hsame : PrintsLike first second) :
    first.Named ↔ second.Named := by
  rw [Segment.Named, Segment.Named, hsame.sport, hsame.dport]

/-- Behind an IP header without options the two headers are one, and only
padding makes a difference. -/
theorem offsetsAgree_of_ihl (hihl : ihl frame = 5) :
    OffsetsAgree frame n ↔ ((carried frame).Named → n = 14 + ipLen frame) := by
  have hsame : assumed frame = carried frame := by rw [assumed, carried, hihl]
  rw [OffsetsAgree, hsame, hihl]
  constructor
  · rintro (⟨-, hnot⟩ | ⟨-, -, heven⟩) hnamed
    · exact absurd hnamed hnot
    · omega
  · intro hlength
    by_cases hnamed : (carried frame).Named
    · exact .inr ⟨hnamed, ⟨rfl, rfl, rfl, rfl, rfl, rfl⟩, by rw [hlength hnamed]; omega⟩
    · exact .inl ⟨hnamed, hnamed⟩

/--
The printer reports the segment that a frame carries exactly where its fixed
offset and the received length agree with the lengths in the frame; without IP
options that is, where a frame of the port 8080 ends with its IP packet.
-/
theorem minidump_reports_iff (hframe : CarriesTcp frame n) :
    (Reports frame (minidump frame n) ↔ OffsetsAgree frame n) ∧
      (ihl frame = 5 →
        (Reports frame (minidump frame n) ↔
          ((carried frame).Named → n = 14 + ipLen frame))) := by
  have hreports : Reports frame (minidump frame n) ↔ OffsetsAgree frame n := by
    rw [minidump_eq hframe]
    by_cases hassumed : (assumed frame).Named
    · rw [if_pos hassumed]
      constructor
      · rintro ⟨hport, htells⟩
        exact .inr ⟨hport.1 rfl, (tells_printed_iff hframe).1 (htells _ rfl)⟩
      · rintro (⟨hnot, -⟩ | ⟨hcarried, hagree⟩)
        · exact absurd hassumed hnot
        · refine ⟨⟨fun _ => hcarried, fun _ => rfl⟩, fun line hline => ?_⟩
          cases hline
          exact (tells_printed_iff hframe).2 hagree
    · rw [if_neg hassumed]
      constructor
      · rintro ⟨hport, -⟩
        exact .inl ⟨hassumed, fun hcarried => by simpa using hport.2 hcarried⟩
      · rintro (⟨-, hcarried⟩ | ⟨hcarried, hsame, -⟩)
        · exact ⟨⟨fun hline => by simp at hline, fun hnamed => absurd hnamed hcarried⟩,
            fun line hline => by simp at hline⟩
        · exact absurd (hsame.named_iff.2 hcarried) hassumed
  exact ⟨hreports, fun hihl => hreports.trans (offsetsAgree_of_ihl hihl)⟩

/-- An acknowledgement from the port 8080: headers of 14, 20 and 20 bytes, no payload. -/
def ackFrame : Buffer := fun i =>
  [ 0, 0, 0, 0, 0, 0,  0, 0, 0, 0, 0, 0,  0x08, 0x00,
    0x45, 0, 0, 40,  0, 0, 0x40, 0,  64, 6, 0, 0,  127, 0, 0, 1,  127, 0, 0, 1,
    0x1f, 0x90, 0x30, 0x39,  0, 0, 0, 1,  0, 0, 0, 2,  0x50, 0x10, 2, 0,  0, 0, 0, 0 ].getD i 0

/-- The same with four bytes of IP options. -/
def optionsFrame : Buffer := fun i =>
  [ 0, 0, 0, 0, 0, 0,  0, 0, 0, 0, 0, 0,  0x08, 0x00,
    0x46, 0, 0, 44,  0, 0, 0x40, 0,  64, 6, 0, 0,  127, 0, 0, 1,  127, 0, 0, 1,  1, 1, 1, 1,
    0x1f, 0x90, 0x30, 0x39,  0, 0, 0, 1,  0, 0, 0, 2,  0x50, 0x10, 2, 0,  0, 0, 0, 0 ].getD i 0

theorem ackFrame_carries {n : Nat} (hlow : 54 ≤ n) (hfits : n ≤ 2048) :
    CarriesTcp ackFrame n where
  fits := hfits
  ethertype := by decide
  version := by decide
  header := by decide
  unfragmented := by decide
  protocol := by decide
  offset := by decide
  holds := by decide
  complete := hlow

theorem optionsFrame_carries : CarriesTcp optionsFrame 58 where
  fits := by decide
  ethertype := by decide
  version := by decide
  header := by decide
  unfragmented := by decide
  protocol := by decide
  offset := by decide
  holds := by decide
  complete := by decide

theorem minidump_reports_iff_ack : Reports ackFrame (minidump ackFrame 54) :=
  ((minidump_reports_iff (ackFrame_carries (n := 54) (by decide) (by decide))).2 rfl).2
    fun _ => rfl

/-- Six bytes of padding are printed as six bytes of payload, and a segment behind
IP options is not found. -/
theorem minidump_misreports :
    (CarriesTcp ackFrame 60 ∧ ¬ Reports ackFrame (minidump ackFrame 60)) ∧
      CarriesTcp optionsFrame 58 ∧ ¬ Reports optionsFrame (minidump optionsFrame 58) := by
  refine ⟨⟨ackFrame_carries (by decide) (by decide), ?_⟩, optionsFrame_carries, ?_⟩
  · rintro ⟨-, htells⟩
    have hlength := (htells (printed ackFrame 60) (by decide)).length
    exact absurd hlength (by decide)
  · rintro ⟨hport, -⟩
    have hnone : minidump optionsFrame 58 = none := by decide
    have hline := hport.2 (by decide)
    simp [hnone] at hline

end CsInternal.Network.MiniDump
