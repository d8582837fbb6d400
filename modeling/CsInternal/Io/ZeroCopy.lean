import CsInternal.Library.Delivery

/-!
# The file servers of `zero_copy_basic` and `zerocopy_sendfile`

One server copies the file through a buffer of 64 bytes, the other hands it to
a single `sendfile`; both loop over their connections with the file opened
once.  The kernel chooses every result.  The first server ignores the result of
`write`, the second calls `sendfile` once however little it moved, so what a
peer gets is always in order, and whole exactly where every call moves all that
it was asked to.
-/

namespace CsInternal.Io.ZeroCopy

open CsInternal.Library

abbrev Byte := BitVec 8

/-- A call with its arguments and its result; a result of -1 is `none`. -/
inductive Call where
  /-- `lseek(fd, 0, SEEK_SET)` -/
  | lseek (ok : Bool)
  | accept (ok : Bool)
  | read (count : Nat) (result : Option Nat)
  | write (buf : List Byte) (result : Option Nat)
  | fstat (stSize : Nat)
  /-- `sendfile` at the offset 0 -/
  | sendfile (count : Nat) (result : Option Nat)
  | close
  deriving DecidableEq, Repr

/-- The most that one `sendfile` moves. -/
def sendfileMax : Nat := 0x7ffff000

/-- What `read` may return at the given offset. -/
def ReadResult (file : List Byte) (offset count : Nat) : Option Nat → Prop
  | none => True
  | some 0 => count = 0 ∨ file.length ≤ offset
  | some k => k ≤ count ∧ offset + k ≤ file.length

def WriteResult (buf : List Byte) : Option Nat → Prop
  | none => True
  | some k => k ≤ buf.length

def SendfileResult (file : List Byte) (count : Nat) : Option Nat → Prop
  | none => True
  | some 0 => count = 0 ∨ file = []
  | some k => k ≤ count ∧ k ≤ file.length ∧ k ≤ sendfileMax

/-- The call does not fail; a `write` moves something. -/
def Call.Live : Call → Prop
  | .read _ result => result.isSome
  | .write _ result => ∃ k, result = some k ∧ 0 < k
  | .sendfile _ result => result.isSome
  | _ => True

/-- The call moves all that it was asked to. -/
def Call.Full : Call → Prop
  | .write buf result => result = some buf.length
  | .sendfile count result => result = some count
  | _ => True

/-- What the connections have received. -/
structure Peers where
  finished : List (List Byte)
  /-- the open connection -/
  current : Option (List Byte)
  deriving DecidableEq, Repr

namespace Peers

def accept (peers : Peers) : Peers := { peers with current := some [] }

def send (peers : Peers) (bytes : List Byte) : Peers :=
  { peers with current := peers.current.map (· ++ bytes) }

def close (peers : Peers) : Peers :=
  { finished := peers.finished ++ peers.current.toList, current := none }

end Peers

/-- Every closed connection got exactly the file, and the open one its beginning. -/
def Delivers (file : List Byte) (peers : Peers) : Prop :=
  (∀ stream ∈ peers.finished, stream = file) ∧
    ∀ sent, peers.current = some sent → sent <+: file

def bufferSize : Nat := 64

inductive CopyPoint where
  | lseek
  | accept
  /-- `n = read(fd, buf, BUFFER_SIZE)` and the test of the loop -/
  | read
  | write (buf : List Byte)
  | close
  /-- after `err_quit` -/
  | exited
  deriving DecidableEq, Repr

structure CopyState where
  /-- the offset of `fd`, shared by all connections -/
  offset : Nat
  point : CopyPoint
  peers : Peers
  deriving DecidableEq, Repr

inductive CopyStep (file : List Byte) : CopyState → Call → CopyState → Prop where
  | lseek (offset : Nat) (peers : Peers) (ok : Bool) :
      CopyStep file ⟨offset, .lseek, peers⟩ (.lseek ok)
        (if ok then ⟨0, .accept, peers⟩ else ⟨offset, .exited, peers⟩)
  | accept (offset : Nat) (peers : Peers) (ok : Bool) :
      CopyStep file ⟨offset, .accept, peers⟩ (.accept ok)
        (if ok then ⟨offset, .read, peers.accept⟩ else ⟨offset, .exited, peers⟩)
  | read (offset : Nat) (peers : Peers) (n : Nat) (hpositive : 0 < n)
      (hresult : ReadResult file offset bufferSize (some n)) :
      CopyStep file ⟨offset, .read, peers⟩ (.read bufferSize (some n))
        ⟨offset + n, .write ((file.drop offset).take n), peers⟩
  | readEnd (offset : Nat) (peers : Peers) (result : Option Nat)
      (hend : result = none ∨ result = some 0)
      (hresult : ReadResult file offset bufferSize result) :
      CopyStep file ⟨offset, .read, peers⟩ (.read bufferSize result) ⟨offset, .close, peers⟩
  -- the result is not looked at
  | write (offset : Nat) (peers : Peers) (buf : List Byte) (result : Option Nat)
      (hresult : WriteResult buf result) :
      CopyStep file ⟨offset, .write buf, peers⟩ (.write buf result)
        ⟨offset, .read, peers.send (buf.take (result.getD 0))⟩
  | close (offset : Nat) (peers : Peers) :
      CopyStep file ⟨offset, .close, peers⟩ .close ⟨offset, .lseek, peers.close⟩

def copyServer (file : List Byte) : System CopyState Call where
  init s := s = ⟨0, .lseek, ⟨[], none⟩⟩
  step := CopyStep file

inductive SendPoint where
  | accept
  | fstat
  | sendfile (stSize : Nat)
  | close
  | exited
  deriving DecidableEq, Repr

structure SendState where
  point : SendPoint
  peers : Peers
  deriving DecidableEq, Repr

/-- `int cnt`, the result of `sendfile` cut to 32 bits. -/
def cnt : Option Nat → BitVec 32
  | none => -1
  | some k => BitVec.ofNat 32 k

inductive SendStep (file : List Byte) : SendState → Call → SendState → Prop where
  | accept (peers : Peers) (ok : Bool) :
      SendStep file ⟨.accept, peers⟩ (.accept ok)
        (if ok then ⟨.fstat, peers.accept⟩ else ⟨.exited, peers⟩)
  | fstat (peers : Peers) :
      SendStep file ⟨.fstat, peers⟩ (.fstat file.length) ⟨.sendfile file.length, peers⟩
  | sendfile (peers : Peers) (stSize : Nat) (result : Option Nat)
      (hresult : SendfileResult file stSize result) :
      SendStep file ⟨.sendfile stSize, peers⟩ (.sendfile stSize result)
        ⟨if (cnt result).slt 0 then .exited else .close,
          peers.send (file.take (result.getD 0))⟩
  | close (peers : Peers) :
      SendStep file ⟨.close, peers⟩ .close ⟨.accept, peers.close⟩

def sendfileServer (file : List Byte) : System SendState Call where
  init s := s = ⟨.accept, ⟨[], none⟩⟩
  step := SendStep file

/-- The runs on live connections. -/
def live {σ : Type} (S : System σ Call) : System σ Call := S.restrict fun _ call => call.Live

/-! ## The servers as deliveries -/

variable {file : List Byte} {call : Call}

/-- What the connections got, with what the server has taken from the file. -/
def Peers.delivery (peers : Peers) (taken : List Byte) : Delivery Byte :=
  ⟨peers.finished, peers.current.map fun sent => (sent, taken)⟩

theorem take_eq_take_iff {k count : Nat} (hk : k ≤ count) (hcount : count ≤ file.length) :
    file.take k = file.take count ↔ some k = some count := by
  rw [Option.some_inj]
  constructor
  · intro hsame
    have hlength := congrArg List.length hsame
    simp only [List.length_take] at hlength
    omega
  · rintro rfl
    rfl

/-- Before a `write` the buffer is what the file has behind the bytes taken earlier. -/
inductive CopyConsistent (file : List Byte) : CopyState → Prop where
  | lseek (offset : Nat) (finished : List (List Byte)) :
      CopyConsistent file ⟨offset, .lseek, ⟨finished, none⟩⟩
  | accept (finished : List (List Byte)) :
      CopyConsistent file ⟨0, .accept, ⟨finished, none⟩⟩
  | read (offset : Nat) (finished : List (List Byte)) (sent : List Byte) :
      CopyConsistent file ⟨offset, .read, ⟨finished, some sent⟩⟩
  | write (before : Nat) (buf : List Byte) (finished : List (List Byte)) (sent : List Byte)
      (hbuf : file.take before ++ buf = file.take (before + buf.length)) :
      CopyConsistent file ⟨before + buf.length, .write buf, ⟨finished, some sent⟩⟩
  | close (offset : Nat) (finished : List (List Byte)) (sent : List Byte)
      (hend : file.length ≤ offset) :
      CopyConsistent file ⟨offset, .close, ⟨finished, some sent⟩⟩
  | exited (offset : Nat) (finished : List (List Byte)) :
      CopyConsistent file ⟨offset, .exited, ⟨finished, none⟩⟩

/-- The bytes that were read and are not still to be written. -/
def CopyState.taken (file : List Byte) (s : CopyState) : List Byte :=
  file.take (match s.point with
    | .write buf => s.offset - buf.length
    | _ => s.offset)

def CopyState.delivery (file : List Byte) (s : CopyState) : Delivery Byte :=
  s.peers.delivery (s.taken file)

theorem taken_write (file : List Byte) (before : Nat) (buf : List Byte) (peers : Peers) :
    CopyState.taken file ⟨before + buf.length, .write buf, peers⟩ = file.take before :=
  congrArg (fun k => file.take k) (Nat.add_sub_cancel before buf.length)

theorem CopyStep.served {s t : CopyState} (hinv : CopyConsistent file s)
    (hstep : CopyStep file s call t) (hlive : call.Live) :
    CopyConsistent file t ∧
      Delivery.Served file (s.delivery file) call.Full (t.delivery file) := by
  cases hstep with
  | lseek offset peers ok =>
      cases hinv
      cases ok
      · exact ⟨.exited _ _, .silent trivial⟩
      · exact ⟨.accept _, .silent trivial⟩
  | accept offset peers ok =>
      cases hinv with
      | accept finished =>
          cases ok
          · exact ⟨.exited _ _, .silent trivial⟩
          · exact ⟨.read _ _ _, .shown (.accept _) Iff.rfl⟩
  | read offset peers n hpositive hresult =>
      cases hinv with
      | read _ finished sent =>
          obtain ⟨k, rfl⟩ := Nat.exists_eq_succ_of_ne_zero (Nat.ne_of_gt hpositive)
          have hlength : ((file.drop offset).take (k + 1)).length = k + 1 := by
            have hfits := hresult.2
            simp only [List.length_take, List.length_drop]
            omega
          have hbuf : file.take offset ++ (file.drop offset).take (k + 1) =
              file.take (offset + ((file.drop offset).take (k + 1)).length) := by
            rw [hlength]
            exact List.take_add.symm
          have hconsistent := CopyConsistent.write offset _ finished sent hbuf
          have htaken := taken_write file offset ((file.drop offset).take (k + 1))
            ⟨finished, some sent⟩
          rw [hlength] at hconsistent htaken
          refine ⟨hconsistent, ?_⟩
          rw [CopyState.delivery, CopyState.delivery, htaken]
          exact .silent trivial
  | readEnd offset peers result hend hresult =>
      cases hinv with
      | read _ finished sent =>
          obtain rfl | rfl := hend
          · cases hlive
          · have hstop : file.length ≤ offset := hresult.resolve_left (by decide)
            exact ⟨.close _ _ _ hstop, .silent trivial⟩
  | write offset peers buf result hresult =>
      obtain ⟨k, rfl, -⟩ := hlive
      cases hinv with
      | write before _ finished sent hbuf =>
          refine ⟨.read _ _ _, ?_⟩
          have hprefix : file.take before ++ buf <+: file := by
            rw [hbuf]
            exact List.take_prefix _ _
          have hsend := Delivery.Step.send finished sent (file.take before) buf (buf.take k)
            (List.take_sublist k buf) hprefix
          rw [hbuf] at hsend
          rw [CopyState.delivery, taken_write]
          refine .shown hsend ?_
          rw [Delivery.Action.Full, Call.Full, ← take_eq_take_iff hresult (Nat.le_refl _),
            List.take_length]
  | close offset peers =>
      cases hinv with
      | close _ finished sent hend =>
          refine ⟨.lseek _ _, ?_⟩
          have htaken : CopyState.taken file ⟨offset, .close, ⟨finished, some sent⟩⟩ = file :=
            List.take_of_length_le hend
          rw [CopyState.delivery, htaken]
          exact .shown (.close _ _) Iff.rfl

theorem copyServer_serves (file : List Byte) :
    Delivery.Serves (live (copyServer file)) file (CopyState.delivery file) Call.Full
      (CopyConsistent file) where
  init s hinit := by
    cases hinit
    exact ⟨.lseek _ _, rfl⟩
  step _ _ _ hinv hstep := hstep.1.served hinv hstep.2

/-- After `fstat` the size is that of the file. -/
inductive SendConsistent (file : List Byte) : SendState → Prop where
  | accept (finished : List (List Byte)) : SendConsistent file ⟨.accept, ⟨finished, none⟩⟩
  | fstat (finished : List (List Byte)) : SendConsistent file ⟨.fstat, ⟨finished, some []⟩⟩
  | sendfile (finished : List (List Byte)) :
      SendConsistent file ⟨.sendfile file.length, ⟨finished, some []⟩⟩
  | close (finished : List (List Byte)) (sent : List Byte) :
      SendConsistent file ⟨.close, ⟨finished, some sent⟩⟩
  | exited (finished : List (List Byte)) : SendConsistent file ⟨.exited, ⟨finished, none⟩⟩

/-- One call takes the whole file. -/
def SendState.delivery (file : List Byte) (s : SendState) : Delivery Byte :=
  s.peers.delivery (if s.point = .close then file else [])

theorem SendfileResult.le {count k : Nat} (hresult : SendfileResult file count (some k)) :
    k ≤ count := by
  cases k with
  | zero => exact Nat.zero_le _
  | succ k => exact hresult.1

theorem SendfileResult.le_max {count k : Nat} (hresult : SendfileResult file count (some k)) :
    k ≤ sendfileMax := by
  cases k with
  | zero => exact Nat.zero_le _
  | succ k => exact hresult.2.2

/-- No result of a call that succeeded is negative as an `int`. -/
theorem cnt_nonneg {count k : Nat} (hresult : SendfileResult file count (some k)) :
    (cnt (some k)).slt 0 = false := by
  have hmax := hresult.le_max
  rw [sendfileMax] at hmax
  have hsign : (BitVec.ofNat 32 k).msb = false := by
    rw [BitVec.msb_eq_decide, BitVec.toNat_ofNat]
    exact decide_eq_false (by omega)
  rw [cnt, BitVec.ofNat_eq_ofNat, BitVec.slt_zero_eq_msb, hsign]

theorem SendStep.served {s t : SendState} (hinv : SendConsistent file s)
    (hstep : SendStep file s call t) (hlive : call.Live) :
    SendConsistent file t ∧
      Delivery.Served file (s.delivery file) call.Full (t.delivery file) := by
  cases hstep with
  | accept peers ok =>
      cases hinv with
      | accept finished =>
          cases ok
          · exact ⟨.exited _, .silent trivial⟩
          · exact ⟨.fstat _, .shown (.accept _) Iff.rfl⟩
  | fstat peers =>
      cases hinv with
      | fstat finished => exact ⟨.sendfile _, .silent trivial⟩
  | sendfile peers stSize result hresult =>
      obtain ⟨k, rfl⟩ := Option.isSome_iff_exists.1 hlive
      rw [cnt_nonneg hresult]
      cases hinv with
      | sendfile finished =>
          refine ⟨.close _ _, ?_⟩
          have hsend := Delivery.Step.send finished [] [] file (file.take k)
            (List.take_sublist k file) (List.prefix_refl file)
          refine .shown hsend ?_
          rw [Delivery.Action.Full, Call.Full, ← take_eq_take_iff hresult.le (Nat.le_refl _),
            List.take_length]
  | close peers =>
      cases hinv with
      | close finished sent => exact ⟨.accept _, .shown (.close _ _) Iff.rfl⟩

theorem sendfileServer_serves (file : List Byte) :
    Delivery.Serves (live (sendfileServer file)) file (SendState.delivery file) Call.Full
      (SendConsistent file) where
  init s hinit := by
    cases hinit
    exact ⟨.accept _, rfl⟩
  step _ _ _ hinv hstep := hstep.1.served hinv hstep.2

/-- No stream is longer than what one `sendfile` moves. -/
structure Bounded (s : SendState) : Prop where
  finished : ∀ stream ∈ s.peers.finished, stream.length ≤ sendfileMax
  current : ∀ sent, s.peers.current = some sent → sent.length ≤ sendfileMax
  unsent : s.point ≠ .close → ∀ sent, s.peers.current = some sent → sent = []

theorem SendStep.bounded {s t : SendState} (hbounded : Bounded s)
    (hstep : SendStep file s call t) : Bounded t := by
  cases hstep with
  | accept peers ok =>
      cases ok
      · exact ⟨hbounded.finished, hbounded.current,
          fun _ => hbounded.unsent (by simp)⟩
      · refine ⟨hbounded.finished, fun sent hsent => ?_, fun _ sent hsent => ?_⟩
        · cases hsent
          exact Nat.zero_le _
        · cases hsent
          rfl
  | fstat peers =>
      exact ⟨hbounded.finished, hbounded.current, fun _ => hbounded.unsent (by simp)⟩
  | sendfile peers stSize result hresult =>
      have hsent : ∀ sent, (peers.send (file.take (result.getD 0))).current = some sent →
          sent = file.take (result.getD 0) := by
        intro sent hcurrent
        obtain ⟨before, hbefore, rfl⟩ := Option.map_eq_some_iff.1 hcurrent
        rw [hbounded.unsent (by simp) before hbefore, List.nil_append]
      refine ⟨hbounded.finished, fun sent hcurrent => ?_, fun hpoint sent hcurrent => ?_⟩
      · rw [hsent sent hcurrent]
        cases result with
        | none => simp
        | some k => exact Nat.le_trans (List.length_take_le k file) hresult.le_max
      · rw [hsent sent hcurrent]
        cases result with
        | none => rfl
        | some k =>
            rw [cnt_nonneg hresult] at hpoint
            exact absurd rfl hpoint
  | close peers =>
      refine ⟨fun stream hmem => ?_, fun _ hcurrent => (by cases hcurrent),
        fun _ _ hcurrent => (by cases hcurrent)⟩
      rcases List.mem_append.1 hmem with hmem | hmem
      · exact hbounded.finished stream hmem
      · exact hbounded.current stream (Option.mem_toList.1 hmem)

/-- A file that is longer than one call can move is never delivered, whatever
the kernel returns. -/
theorem sendfile_cuts_large_file {start s : SendState} {calls : List Call}
    (hlarge : sendfileMax < file.length) (hinit : (sendfileServer file).init start)
    (hrun : (sendfileServer file).Run start calls s) :
    ∀ stream ∈ s.peers.finished, stream ≠ file := by
  have hkeep (s : SendState) (call : Call) (t : SendState) (hbounded : Bounded s)
      (hstep : SendStep file s call t) : Bounded t := hstep.bounded hbounded
  have hstart : Bounded start := by
    cases hinit
    exact ⟨by simp, by simp, by simp⟩
  have hbounded := hrun.preserves hkeep hstart
  rintro stream hmem rfl
  exact absurd (hbounded.finished stream hmem) (Nat.not_le_of_lt hlarge)

theorem Peers.delivers_of_exact {peers : Peers} {taken : List Byte}
    (hordered : (peers.delivery taken).Ordered file)
    (hexact : (peers.delivery taken).Exact file) : Delivers file peers := by
  refine ⟨hexact.finished, fun sent hcurrent => ?_⟩
  have hopen : (peers.delivery taken).current = some (sent, taken) := by
    simp [Peers.delivery, hcurrent]
  rw [hexact.sent sent taken hopen]
  exact hordered.taken sent taken hopen

theorem Peers.exact_of_delivers {peers : Peers} {taken : List Byte}
    (hdelivers : Delivers file peers) (hclosed : peers.current = none) :
    (peers.delivery taken).Exact file where
  finished := hdelivers.1
  sent _ _ hcurrent := by simp [Peers.delivery, hclosed] at hcurrent

/--
On live connections each server delivers the file where every `write`, and
every `sendfile`, moves all that it was asked to, and between two connections
only there; the streams of the two servers are then equal.
-/
theorem servers_deliver_iff {copyStart copy : CopyState} {sendStart send : SendState}
    {copyCalls sendCalls : List Call} (hcopyInit : (copyServer file).init copyStart)
    (hcopy : (live (copyServer file)).Run copyStart copyCalls copy)
    (hsendInit : (sendfileServer file).init sendStart)
    (hsend : (live (sendfileServer file)).Run sendStart sendCalls send) :
    (((∀ call ∈ copyCalls, call.Full) → Delivers file copy.peers) ∧
      (copy.peers.current = none →
        (Delivers file copy.peers ↔ ∀ call ∈ copyCalls, call.Full))) ∧
    (((∀ call ∈ sendCalls, call.Full) → Delivers file send.peers) ∧
      (send.peers.current = none →
        (Delivers file send.peers ↔ ∀ call ∈ sendCalls, call.Full))) ∧
    (Delivers file copy.peers → Delivers file send.peers →
      copy.peers.finished.length = send.peers.finished.length →
      copy.peers.finished = send.peers.finished) := by
  obtain ⟨-, hcopyOrdered, hcopyExact⟩ := (copyServer_serves file).run hcopyInit hcopy
  obtain ⟨-, hsendOrdered, hsendExact⟩ := (sendfileServer_serves file).run hsendInit hsend
  have hcopyFull : (∀ call ∈ copyCalls, call.Full) → Delivers file copy.peers := fun hfull =>
    Peers.delivers_of_exact hcopyOrdered (hcopyExact.2 hfull)
  have hsendFull : (∀ call ∈ sendCalls, call.Full) → Delivers file send.peers := fun hfull =>
    Peers.delivers_of_exact hsendOrdered (hsendExact.2 hfull)
  refine ⟨⟨hcopyFull, fun hclosed => ⟨fun hdelivers => ?_, hcopyFull⟩⟩,
    ⟨hsendFull, fun hclosed => ⟨fun hdelivers => ?_, hsendFull⟩⟩,
    fun hdelivers hdelivers' hcount => ?_⟩
  · exact hcopyExact.1 (Peers.exact_of_delivers hdelivers hclosed)
  · exact hsendExact.1 (Peers.exact_of_delivers hdelivers hclosed)
  · rw [List.eq_replicate_of_mem hdelivers.1, List.eq_replicate_of_mem hdelivers'.1, hcount]

/-- A file of two bytes is served once; `write` moves `k` of them. -/
theorem copyServer_run {k : Nat} (hpositive : 0 < k) (hk : k ≤ 2) :
    (live (copyServer [1, 2])).Run ⟨0, .lseek, ⟨[], none⟩⟩
      [.lseek true, .accept true, .read bufferSize (some 2), .write [1, 2] (some k),
        .read bufferSize (some 0), .close]
      ⟨2, .lseek, ⟨[[1, 2].take k], none⟩⟩ :=
  .head ⟨.lseek 0 _ true, trivial⟩ <|
  .head ⟨.accept 0 _ true, trivial⟩ <|
  .head ⟨.read 0 _ 2 (by decide) ⟨by decide, by decide⟩, rfl⟩ <|
  .head ⟨.write 2 _ [1, 2] (some k) hk, k, rfl, hpositive⟩ <|
  .head ⟨.readEnd 2 _ (some 0) (.inr rfl) (.inr (by decide)), rfl⟩ <|
  .single ⟨.close 2 _, trivial⟩

theorem sendfileServer_run {k : Nat} (hpositive : 0 < k) (hk : k ≤ 2) :
    (live (sendfileServer [1, 2])).Run ⟨.accept, ⟨[], none⟩⟩
      [.accept true, .fstat 2, .sendfile 2 (some k), .close]
      ⟨.accept, ⟨[[1, 2].take k], none⟩⟩ := by
  have hresult : SendfileResult [1, 2] 2 (some k) := by
    obtain ⟨j, rfl⟩ := Nat.exists_eq_succ_of_ne_zero (Nat.ne_of_gt hpositive)
    exact ⟨hk, hk, Nat.le_trans hk (by decide)⟩
  have hsendfile := SendStep.sendfile ⟨[], some []⟩ 2 (some k) hresult
  rw [cnt_nonneg hresult] at hsendfile
  exact .head ⟨.accept _ true, trivial⟩ <| .head ⟨.fstat _, trivial⟩ <|
    .head ⟨hsendfile, rfl⟩ <| .single ⟨.close _, trivial⟩

theorem servers_deliver_iff_whole :
    Delivers [1, 2] ⟨[[1, 2]], none⟩ ∧ Delivers [1, 2] ⟨[[1, 2]], none⟩ := by
  have hservers := servers_deliver_iff rfl (copyServer_run (k := 2) (by decide) (by decide)) rfl
    (sendfileServer_run (k := 2) (by decide) (by decide))
  exact ⟨hservers.1.1 (by simp [Call.Full]), hservers.2.1.1 (by simp [Call.Full])⟩

/-- One byte is moved of two, and both servers close the connection. -/
theorem short_transfers :
    (∃ start calls s, (copyServer [1, 2]).init start ∧
      (live (copyServer [1, 2])).Run start calls s ∧ ¬ Delivers [1, 2] s.peers) ∧
    ∃ start calls s, (sendfileServer [1, 2]).init start ∧
      (live (sendfileServer [1, 2])).Run start calls s ∧ ¬ Delivers [1, 2] s.peers := by
  refine ⟨⟨_, _, _, rfl, copyServer_run (k := 1) (by decide) (by decide), ?_⟩,
    _, _, _, rfl, sendfileServer_run (k := 1) (by decide) (by decide), ?_⟩
  · exact fun hdelivers => absurd (hdelivers.1 [1] (by decide)) (by decide)
  · exact fun hdelivers => absurd (hdelivers.1 [1] (by decide)) (by decide)

end CsInternal.Io.ZeroCopy
