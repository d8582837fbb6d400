import CsInternal.Network.MiniDump
import Mathlib.Logic.Function.Basic

/-!
# What `minidump.cpp` says about a frame of any length

The loop body looks at the buffer without comparing anything with the number of
bytes received, and the buffer still holds the bytes of the frame before.  The
line is about the bytes received exactly where these already rule it out, or
where they reach to the end of the printed fields and of the TCP header.
-/

namespace CsInternal.Network.MiniDump

open CsInternal.Library.NetworkOrder

/-- The printer says nothing that the first `n` bytes of `frame` do not:
whatever else is in the buffer, the output is the same and its length is a
difference that does not wrap. -/
structure Honest (frame : Buffer) (n : Nat) : Prop where
  same : ∀ first second, Agree n frame first → Agree n frame second →
    minidump first n = minidump second n
  length : ∀ buf line, Agree n frame buf → minidump buf n = some line →
    sizeofEthernetHeader + sizeofIPv4Header + (tcpHeaderLength (tcpHeaderAt buf 34)).toNat ≤ n ∧
      line.length.toNat ≤ n

/-- The byte `i` has been received and is another one. -/
def Differs (frame : Buffer) (n i : Nat) (byte : BitVec 8) : Prop := i < n ∧ frame i ≠ byte

instance (frame : Buffer) (n i : Nat) (byte : BitVec 8) : Decidable (Differs frame n i byte) :=
  inferInstanceAs (Decidable (_ ∧ _))

/-- The port at `i` is not 8080, as far as it has been received. -/
def OtherPort (frame : Buffer) (n i : Nat) : Prop :=
  Differs frame n i 0x1f ∨ Differs frame n (i + 1) 0x90

instance (frame : Buffer) (n i : Nat) : Decidable (OtherPort frame n i) :=
  inferInstanceAs (Decidable (_ ∨ _))

/-- The bytes received rule out a line: the type is not IP, the protocol is not
TCP, or neither port is 8080. -/
def RuledOut (frame : Buffer) (n : Nat) : Prop :=
  Differs frame n 12 0x08 ∨ Differs frame n 13 0x00 ∨ Differs frame n 23 6 ∨
    OtherPort frame n 34 ∧ OtherPort frame n 36

instance (frame : Buffer) (n : Nat) : Decidable (RuledOut frame n) :=
  inferInstanceAs (Decidable (_ ∨ _ ∨ _ ∨ _ ∧ _))

/-- The bytes of a frame of port 8080 that the decisions look at. -/
def wanted : Buffer := fun i =>
  if i = 12 then 0x08 else if i = 13 then 0x00 else if i = 23 then 6
  else if i = 34 ∨ i = 36 then 0x1f else if i = 35 ∨ i = 37 then 0x90 else 0

theorem shown_iff (frame : Buffer) : Shown frame ↔
    (frame 12 = 0x08 ∧ frame 13 = 0x00) ∧ frame 23 = 6 ∧
      (frame 34 = 0x1f ∧ frame 35 = 0x90 ∨ frame 36 = 0x1f ∧ frame 37 = 0x90) := by
  have htype : be16 frame 12 = 0x0800 ↔ frame 12 = 0x08 ∧ frame 13 = 0x00 :=
    @be16_eq_append_iff frame 12 0x08 0x00
  have hport (i : Nat) : be16 frame i = 8080 ↔ frame i = 0x1f ∧ frame (i + 1) = 0x90 :=
    @be16_eq_append_iff frame i 0x1f 0x90
  rw [Shown, htype, Segment.Named]
  exact and_congr Iff.rfl (and_congr Iff.rfl (or_congr (hport 34) (hport 36)))

theorem differs_of_ne {frame buf : Buffer} {n i : Nat} {byte : BitVec 8}
    (hagree : Agree n frame buf) (hdiffers : Differs frame n i byte) : buf i ≠ byte := by
  rw [← hagree i hdiffers.1]
  exact hdiffers.2

theorem not_shown_of_ruledOut {frame buf : Buffer} {n : Nat} (hagree : Agree n frame buf)
    (hout : RuledOut frame n) : ¬ Shown buf := by
  rw [shown_iff]
  rintro ⟨⟨h12, h13⟩, h23, hports⟩
  have hother {i : Nat} (h : OtherPort frame n i) : ¬ (buf i = 0x1f ∧ buf (i + 1) = 0x90) :=
    fun hport => h.elim (fun h => differs_of_ne hagree h hport.1)
      (fun h => differs_of_ne hagree h hport.2)
  rcases hout with h | h | h | ⟨hs, hd⟩
  · exact differs_of_ne hagree h h12
  · exact differs_of_ne hagree h h13
  · exact differs_of_ne hagree h h23
  · exact hports.elim (hother hs) (hother hd)

theorem splice_of_not_differs {frame rest : Buffer} {n i : Nat}
    (h : ¬ Differs frame n i (rest i)) : splice n frame rest i = rest i := by
  unfold splice
  split
  · rename_i hi
    exact Classical.not_not.mp fun hne => h ⟨hi, hne⟩
  · rfl

/-- A frame that is not ruled out may go on so that a line is printed. -/
theorem shown_splice {frame : Buffer} {n : Nat} (hout : ¬ RuledOut frame n) :
    Shown (splice n frame wanted) := by
  simp only [RuledOut, not_or] at hout
  obtain ⟨h12, h13, h23, hports⟩ := hout
  have hport (i : Nat) (hbytes : wanted i = 0x1f ∧ wanted (i + 1) = 0x90)
      (h : ¬ OtherPort frame n i) :
      splice n frame wanted i = 0x1f ∧ splice n frame wanted (i + 1) = 0x90 := by
    rw [OtherPort, not_or] at h
    rw [← hbytes.1, ← hbytes.2]
    rw [← hbytes.1, ← hbytes.2] at h
    exact ⟨splice_of_not_differs h.1, splice_of_not_differs h.2⟩
  rw [shown_iff]
  refine ⟨⟨splice_of_not_differs h12, splice_of_not_differs h13⟩, splice_of_not_differs h23, ?_⟩
  exact (Classical.not_and_iff_not_or_not.mp hports).imp (hport 34 (by decide))
    (hport 36 (by decide))

/-- Fifty bytes decide everything that is printed. -/
theorem minidump_congr {first second : Buffer} (hagree : Agree 50 first second) (n : Nat) :
    minidump first n = minidump second n := by
  have hassumed : assumed first = assumed second := by
    rw [assumed, assumed, segmentAt, segmentAt, hagree.be16 (by decide), hagree.be16 (by decide),
      hagree.be32 (by decide), hagree.be32 (by decide), hagree (34 + 13) (by decide),
      hagree.be16 (by decide), hagree (34 + 12) (by decide)]
  have hshown : Shown first ↔ Shown second := by
    rw [Shown, Shown, hagree.be16 (by decide), hagree 23 (by decide), hassumed]
  have hprinted : printed first n = printed second n := by
    have hlength : tcpHeaderLength (tcpHeaderAt first 34) =
        tcpHeaderLength (tcpHeaderAt second 34) := by
      rw [tcpHeaderLength, tcpHeaderLength]
      simp only [tcpHeaderAt, hagree (34 + 12) (by decide)]
    simp only [printed, hassumed, hlength, ipv4HeaderAt, hagree.load32 (i := 14 + 12) (by decide),
      hagree.load32 (i := 14 + 16) (by decide)]
  simp only [minidump_eq_ite, hshown, hprinted]

/-- The last byte of the window is printed. -/
theorem minidump_last_byte {buf : Buffer} (hshown : Shown buf) (n : Nat) :
    minidump (Function.update buf 49 (buf 49 + 1)) n ≠ minidump buf n := by
  have hother : Shown (Function.update buf 49 (buf 49 + 1)) := by
    rw [shown_iff] at hshown ⊢
    simpa using hshown
  rw [minidump_eq_ite, minidump_eq_ite, if_pos hshown, if_pos hother]
  intro hsame
  have hwin : be16 (Function.update buf 49 (buf 49 + 1)) 48 = be16 buf 48 :=
    congrArg Line.win (Option.some.inj hsame)
  have hbyte : Function.update buf 49 (buf 49 + 1) 49 = buf 49 := (be16_eq_append_iff.mp hwin).2
  rw [Function.update_self] at hbyte
  bv_omega

/-- Where a line is printed, its length is the rest behind the headers exactly
where these fit. -/
theorem printed_length_le_iff (frame : Buffer) {n : Nat} (hn : n ≤ 2048) :
    (printed frame n).length.toNat ≤ n ↔
      sizeofEthernetHeader + sizeofIPv4Header +
        (tcpHeaderLength (tcpHeaderAt frame 34)).toNat ≤ n := by
  have hsmall := (tcpHeaderLength (tcpHeaderAt frame 34)).isLt
  simp [printed, sizeofEthernetHeader, sizeofIPv4Header, BitVec.toNat_sub]
  omega

/--
The printer is honest about the first `n` bytes exactly where these rule a line
out, or reach to the end of the printed fields and of the TCP header.
-/
theorem honest_iff (frame : Buffer) {n : Nat} (hn : n ≤ 2048) :
    Honest frame n ↔ RuledOut frame n ∨
      50 ≤ n ∧ sizeofEthernetHeader + sizeofIPv4Header +
        (tcpHeaderLength (tcpHeaderAt frame 34)).toNat ≤ n := by
  constructor
  · intro hhonest
    by_cases hout : RuledOut frame n
    · exact Or.inl hout
    have hagree := agree_splice n frame wanted
    have hshown := shown_splice hout
    by_cases hwhole : 50 ≤ n
    · have hprinted : minidump (splice n frame wanted) n =
          some (printed (splice n frame wanted) n) := by
        rw [minidump_eq_ite, if_pos hshown]
      have hfits := (hhonest.length _ _ hagree hprinted).1
      have hbyte : splice n frame wanted (34 + 12) = frame (34 + 12) := if_pos (by omega)
      simp only [tcpHeaderLength, tcpHeaderAt, hbyte] at hfits ⊢
      exact Or.inr ⟨hwhole, hfits⟩
    · have hlast : Agree n frame (Function.update (splice n frame wanted) 49
          (splice n frame wanted 49 + 1)) := by
        intro i hi
        rw [Function.update_of_ne (by omega)]
        exact hagree i hi
      exact absurd (hhonest.same _ _ hlast hagree) (minidump_last_byte hshown n)
  · rintro (hout | ⟨hwhole, hfits⟩)
    · have hnone (buf : Buffer) (hagree : Agree n frame buf) : minidump buf n = none := by
        rw [minidump_eq_ite, if_neg (not_shown_of_ruledOut hagree hout)]
      refine ⟨fun first second hfirst hsecond => ?_, fun buf line hagree hline => ?_⟩
      · rw [hnone first hfirst, hnone second hsecond]
      · rw [hnone buf hagree] at hline
        cases hline
    · refine ⟨fun first second hfirst hsecond => ?_, fun buf line hagree hline => ?_⟩
      · refine minidump_congr (fun i hi => ?_) n
        rw [← hfirst i (by omega), hsecond i (by omega)]
      · have hbyte : buf (34 + 12) = frame (34 + 12) := (hagree (34 + 12) (by omega)).symm
        have hbuf : sizeofEthernetHeader + sizeofIPv4Header +
            (tcpHeaderLength (tcpHeaderAt buf 34)).toNat ≤ n := by
          simp only [tcpHeaderLength, tcpHeaderAt, hbyte] at hfits ⊢
          exact hfits
        refine ⟨hbuf, ?_⟩
        rw [minidump_eq_ite] at hline
        split at hline
        · cases hline
          exact (printed_length_le_iff buf hn).mpr hbuf
        · cases hline

theorem honest_iff_ack : Honest ackFrame 54 ↔ RuledOut ackFrame 54 ∨
    50 ≤ 54 ∧ sizeofEthernetHeader + sizeofIPv4Header +
      (tcpHeaderLength (tcpHeaderAt ackFrame 34)).toNat ≤ 54 :=
  honest_iff ackFrame (n := 54) (by decide)

/-- A frame of which nothing has been received is printed from what the buffer
held; and of the acknowledgement's first 50 bytes a length of `2 ^ 64 - 4` is
printed. -/
theorem short_frames_dishonest :
    (minidump ackFrame 0 ≠ minidump (fun _ => 0) 0 ∧ ¬ Honest ackFrame 0) ∧
      (minidump ackFrame 50).map Line.length = some (-4) ∧ ¬ Honest ackFrame 50 := by
  have hstale : minidump ackFrame 0 ≠ minidump (fun _ => 0) 0 := by decide
  have hwrap : (minidump ackFrame 50).map Line.length = some (-4) := by decide
  refine ⟨⟨hstale, fun hhonest => ?_⟩, hwrap, fun hhonest => ?_⟩
  · exact hstale (hhonest.same _ _ (fun i hi => absurd hi (by omega))
      fun i hi => absurd hi (by omega))
  · obtain ⟨line, hline, _⟩ := Option.map_eq_some_iff.mp hwrap
    have hfits := (hhonest.length ackFrame line (fun _ _ => rfl) hline).1
    exact absurd hfits (by decide)

end CsInternal.Network.MiniDump
