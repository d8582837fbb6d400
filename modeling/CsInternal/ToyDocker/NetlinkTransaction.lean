import CsInternal.ToyDocker.NetlinkMessage

/-!
# Sockets and transactions of `nl.c`

A transaction sends a request and receives an answer, which the kernel puts into
the block of a message over whatever its header said before.  The results of the
system calls are given; a call of `recvmsg` after the last of them has not returned.
-/

namespace CsInternal.ToyDocker.NetlinkTransaction

open CsInternal.Library.Attributes
open CsInternal.ToyDocker.NetlinkMessage

/-- The value of `errno` after a call that failed. -/
structure Errno where
  value : Nat
  positive : 0 < value
  deriving DecidableEq

def EINTR : Errno := ⟨4, by decide⟩
def EINVAL : Int := 22
def EMSGSIZE : Int := 90

/-- The result that a call with this `errno` leads to. -/
def Errno.negated (errno : Errno) : Int := -errno.value

/-- What one call of `recvmsg` does: it fails, or takes a datagram from the socket. -/
inductive Received where
  | failed (errno : Errno)
  | datagram (bytes : List Byte)
  deriving DecidableEq

/-- The results of the system calls of one function; `none` stands for success. -/
structure Kernel where
  socket : Option Errno
  setSndbuf : Option Errno
  setRcvbuf : Option Errno
  bind : Option Errno
  getsockname : Option Errno
  /-- `socklen` after `getsockname` is the size of the address -/
  socklenKept : Bool
  /-- `handler->local.nl_family` after `getsockname` is `AF_NETLINK` -/
  familyKept : Bool
  sendmsg : Option Errno
  recvmsg : List Received

/-- Why a function has no result. -/
inductive Stuck where
  /-- an access outside a block -/
  | undefined
  /-- the last call of `recvmsg` has not returned -/
  | waiting
  deriving DecidableEq, Repr

/-- With whether `socket` gave a descriptor. -/
def netlinkOpen (kernel : Kernel) : Int × Bool :=
  match kernel.socket with
  | some errno => (errno.negated, false)
  | none =>
      match kernel.setSndbuf with
      | some errno => (errno.negated, true)
      | none =>
          match kernel.setRcvbuf with
          | some errno => (errno.negated, true)
          | none =>
              match kernel.bind with
              | some errno => (errno.negated, true)
              | none =>
                  match kernel.getsockname with
                  | some errno => (errno.negated, true)
                  | none =>
                      if !kernel.socklenKept then (-EINVAL, true)
                      else if !kernel.familyKept then (-EINVAL, true)
                      else (0, true)

/-- With the bytes that are handed over; `sendmsg` takes a datagram as a whole. -/
def netlinkSend (kernel : Kernel) (nlmsg : Nlmsg) : Except Stuck (Int × List Byte) :=
  if nlmsg.nlmsghdr.length < nlmsg.nlmsgLen then .error .undefined
  else
    match kernel.sendmsg with
    | some errno => .ok (errno.negated, nlmsg.used)
    | none => .ok (nlmsg.nlmsgLen, nlmsg.used)

/-- The kernel writes at most as many bytes as the header of the answer counts, and
sets `MSG_TRUNC` where the datagram is longer; the last test reads the header that
it wrote. -/
def netlinkRcv (answer : Nlmsg) : List Received → Except Stuck (Int × Nlmsg)
  | [] => .error .waiting
  | .failed errno :: later =>
      if errno = EINTR then netlinkRcv answer later else .ok (errno.negated, answer)
  | .datagram bytes :: _ =>
      let written := bytes.take answer.nlmsgLen
      match answer.store 0 written with
      | none => .error .undefined
      | some answer' =>
          let ret := written.length
          if ret = 0 then .ok (0, answer')
          else if answer.nlmsgLen < bytes.length ∧ ret = answer'.nlmsgLen then
            .ok (-EMSGSIZE, answer')
          else .ok (ret, answer')

def NLMSG_ERROR : Nat := 2

/-- `err->error` -/
def ackError (answer : Nlmsg) : Int :=
  (BitVec.ofNat 32 (fromLE (load answer.nlmsghdr 16 4))).toInt

/-- The answer may be the request. -/
def netlinkTransaction (kernel : Kernel) (request answer : Nlmsg) :
    Except Stuck (Int × List Byte × Nlmsg) := do
  let (ret, sent) ← netlinkSend kernel request
  if ret < 0 then return (ret, sent, answer)
  let (ret, answer) ← netlinkRcv answer kernel.recvmsg
  if ret < 0 then return (ret, sent, answer)
  if answer.nlmsgType = NLMSG_ERROR then
    if answer.nlmsghdr.length < 20 then throw .undefined
    return (ackError answer, sent, answer)
  return (0, sent, answer)

/-- A message of the kernel, alone in its datagram. -/
structure Reply where
  type : BitVec 16
  flags : BitVec 16
  seq : BitVec 32
  pid : BitVec 32
  payload : List Byte
  bound : 16 + payload.length < 2 ^ 32

namespace Reply

def bytes (reply : Reply) : List Byte :=
  toLE 4 (16 + reply.payload.length) ++ (toLE 2 reply.type.toNat ++ (toLE 2 reply.flags.toNat ++
    (toLE 4 reply.seq.toNat ++ (toLE 4 reply.pid.toNat ++ reply.payload))))

/-- `struct nlmsgerr` stands at the front of the payload. -/
def error (reply : Reply) : Int := (BitVec.ofNat 32 (fromLE (reply.payload.take 4))).toInt

def IsAck (reply : Reply) : Prop := reply.type.toNat = NLMSG_ERROR

instance (reply : Reply) : Decidable reply.IsAck :=
  inferInstanceAs (Decidable (reply.type.toNat = NLMSG_ERROR))

/-- What the reply says to the one who asked. -/
def verdict (reply : Reply) : Int := if reply.IsAck then reply.error else 0

theorem length_bytes (reply : Reply) : reply.bytes.length = 16 + reply.payload.length := by
  simp only [bytes, List.length_append, length_toLE]
  omega

theorem load_len (reply : Reply) : load reply.bytes 0 4 = toLE 4 (16 + reply.payload.length) := by
  rw [bytes, ← List.nil_append (toLE 4 _ ++ _)]
  exact load_append _ rfl (length_toLE _ _)

theorem load_type (reply : Reply) : load reply.bytes 4 2 = toLE 2 reply.type.toNat :=
  load_append _ (length_toLE _ _) (length_toLE _ _)

theorem load_payload (reply : Reply) (n : Nat) :
    load reply.bytes 16 n = reply.payload.take n := by
  have hfront : reply.bytes = (toLE 4 (16 + reply.payload.length) ++ (toLE 2 reply.type.toNat ++
      (toLE 2 reply.flags.toNat ++ (toLE 4 reply.seq.toNat ++ toLE 4 reply.pid.toNat)))) ++
        reply.payload := by
    simp only [bytes, List.append_assoc]
  rw [hfront, load, List.drop_left']
  simp only [List.length_append, length_toLE]

end Reply

theorem netlinkRcv_interrupted (answer : Nlmsg) (interrupts : Nat) (later : List Received) :
    netlinkRcv answer (List.replicate interrupts (.failed EINTR) ++ later) =
      netlinkRcv answer later := by
  induction interrupts with
  | zero => rfl
  | succ interrupts ih =>
      rw [List.replicate_succ, List.cons_append, netlinkRcv, if_pos rfl, ih]

/-- The buffer after a datagram. -/
def received (answer : Nlmsg) (bytes : List Byte) : Nlmsg where
  nlmsghdr := overwrite answer.nlmsghdr 0 (bytes.take answer.nlmsgLen)
  cap := answer.cap

section

variable {answer : Nlmsg} {bytes : List Byte}

theorem received_nlmsgLen (hanswer : 4 ≤ answer.nlmsgLen) (hbytes : 4 ≤ bytes.length) :
    (received answer bytes).nlmsgLen = fromLE (bytes.take 4) := by
  rw [Nlmsg.nlmsgLen, received, load_overwrite_take _ (by omega) (by omega), load, List.drop_zero]

theorem length_received (hblock : answer.nlmsgLen ≤ answer.nlmsghdr.length) :
    (received answer bytes).nlmsghdr.length = answer.nlmsghdr.length := by
  refine length_overwrite ?_
  rw [List.length_take]
  omega

/-- A datagram in a buffer that its answer counts.  That it did not fit is noticed
only where its first message ends with the buffer. -/
theorem netlinkRcv_datagram (later : List Received)
    (hblock : answer.nlmsgLen ≤ answer.nlmsghdr.length) (hanswer : 4 ≤ answer.nlmsgLen)
    (hbytes : 4 ≤ bytes.length) :
    netlinkRcv answer (.datagram bytes :: later) =
      .ok (if answer.nlmsgLen < bytes.length ∧ fromLE (bytes.take 4) = answer.nlmsgLen
        then -EMSGSIZE else (min answer.nlmsgLen bytes.length : Nat), received answer bytes) := by
  have hmin : (bytes.take answer.nlmsgLen).length = min answer.nlmsgLen bytes.length :=
    List.length_take
  have hload := received_nlmsgLen hanswer hbytes
  rw [received] at hload
  rw [netlinkRcv]
  dsimp only
  rw [store_eq (by omega)]
  dsimp only
  rw [hload, hmin, if_neg (by omega), received]
  by_cases hlong : answer.nlmsgLen < bytes.length ∧ fromLE (bytes.take 4) = answer.nlmsgLen
  · rw [if_pos hlong, if_pos ⟨hlong.1, by omega⟩]
  · rw [if_neg hlong, if_neg (by omega)]

end

/-- The only message of a datagram is read as far as the buffer goes, and the kernel's
verdict is what is returned, however often `recvmsg` was interrupted and whether or
not the message fits; the answer may be the request. -/
theorem netlinkTransaction_reply {kernel : Kernel} {request answer : Nlmsg} {reply : Reply}
    {interrupts : Nat} {later : List Received}
    (hrequest : request.nlmsgLen ≤ request.nlmsghdr.length)
    (hanswer : 20 ≤ answer.nlmsgLen) (hblock : answer.nlmsgLen ≤ answer.nlmsghdr.length)
    (hsend : kernel.sendmsg = none)
    (hrecv : kernel.recvmsg =
      List.replicate interrupts (.failed EINTR) ++ .datagram reply.bytes :: later)
    (hack : reply.IsAck → 4 ≤ reply.payload.length) :
    netlinkTransaction kernel request answer =
      .ok (reply.verdict, request.used, received answer reply.bytes) := by
  have hlength := reply.length_bytes
  have hbound := reply.bound
  have hlen : fromLE (reply.bytes.take 4) = 16 + reply.payload.length := by
    have hload := reply.load_len
    rw [load, List.drop_zero] at hload
    rw [hload, fromLE_toLE_of_lt hbound]
  have hfits : ¬ (answer.nlmsgLen < reply.bytes.length ∧
      fromLE (reply.bytes.take 4) = answer.nlmsgLen) := by omega
  have hsent : netlinkSend kernel request = .ok (request.nlmsgLen, request.used) := by
    rw [netlinkSend, if_neg (by omega), hsend]
  have hbytes : 4 ≤ reply.bytes.length := by omega
  have hrcv := netlinkRcv_datagram later hblock (by omega) hbytes
  rw [if_neg hfits] at hrcv
  have htype : (received answer reply.bytes).nlmsgType = reply.type.toNat := by
    rw [Nlmsg.nlmsgType, received, load_overwrite_take _ (by omega) (by omega), reply.load_type,
      fromLE_toLE_of_lt reply.type.isLt]
  rw [netlinkTransaction, hsent, hrecv, netlinkRcv_interrupted, hrcv]
  dsimp only [bind, Except.bind, pure, Except.pure]
  rw [if_neg (by omega), if_neg (by omega), htype, Reply.verdict]
  split
  · rename_i htwo
    have hisAck : reply.IsAck := htwo
    have hpayload := hack hisAck
    have herror : ackError (received answer reply.bytes) = reply.error := by
      rw [ackError, received, load_overwrite_take _ (by omega) (by omega), reply.load_payload,
        Reply.error]
    rw [if_neg (by rw [length_received hblock]; omega), if_pos hisAck, herror]
  · rename_i htwo
    have hother : ¬ reply.IsAck := htwo
    rw [if_neg hother]

/-! ## What holds of every transaction -/

theorem netlinkRcv_defined {answer : Nlmsg} (hblock : answer.nlmsgLen ≤ answer.nlmsghdr.length)
    (results : List Received) :
    (∃ interrupts, results = List.replicate interrupts (.failed EINTR)) ∧
        netlinkRcv answer results = .error .waiting ∨
      ∃ ret answer', netlinkRcv answer results = .ok (ret, answer') ∧
        answer'.nlmsghdr.length = answer.nlmsghdr.length := by
  induction results with
  | nil => exact .inl ⟨⟨0, rfl⟩, rfl⟩
  | cons result later ih =>
      cases result with
      | failed errno =>
          rw [netlinkRcv]
          split
          · rename_i hinterrupt
            obtain ⟨⟨interrupts, rfl⟩, hwaiting⟩ | hdone := ih
            · exact .inl ⟨⟨interrupts + 1, by rw [hinterrupt, List.replicate_succ]⟩, hwaiting⟩
            · exact .inr hdone
          · exact .inr ⟨_, _, rfl, rfl⟩
      | datagram bytes =>
          have hfit : 0 + (bytes.take answer.nlmsgLen).length ≤ answer.nlmsghdr.length := by
            rw [List.length_take]
            omega
          rw [netlinkRcv]
          dsimp only
          rw [store_eq hfit]
          dsimp only
          right
          split
          · exact ⟨_, _, rfl, length_overwrite hfit⟩
          · split
            · exact ⟨_, _, rfl, length_overwrite hfit⟩
            · exact ⟨_, _, rfl, length_overwrite hfit⟩

/-- A transaction stays inside the two blocks and hands over the request as it is. -/
theorem netlinkTransaction_defined {kernel : Kernel} {request answer : Nlmsg}
    (hrequest : request.nlmsgLen ≤ request.nlmsghdr.length)
    (hblock : answer.nlmsgLen ≤ answer.nlmsghdr.length) (hanswer : 20 ≤ answer.nlmsghdr.length) :
    (∃ interrupts, kernel.recvmsg = List.replicate interrupts (.failed EINTR)) ∧
        netlinkTransaction kernel request answer = .error .waiting ∨
      ∃ ret answer', netlinkTransaction kernel request answer =
        .ok (ret, request.used, answer') := by
  have hsent : ∃ ret, netlinkSend kernel request = .ok (ret, request.used) := by
    rw [netlinkSend, if_neg (by omega)]
    cases kernel.sendmsg with
    | none => exact ⟨_, rfl⟩
    | some errno => exact ⟨_, rfl⟩
  obtain ⟨ret, hsent⟩ := hsent
  rw [netlinkTransaction, hsent]
  dsimp only [bind, Except.bind, pure, Except.pure]
  split
  · exact .inr ⟨_, _, rfl⟩
  · obtain ⟨hinterrupts, hwaiting⟩ | ⟨ret', answer', hrcv, hlength⟩ :=
      netlinkRcv_defined hblock kernel.recvmsg
    · left
      rw [hwaiting]
      exact ⟨hinterrupts, rfl⟩
    · right
      rw [hrcv]
      dsimp only
      split
      · exact ⟨_, _, rfl⟩
      · split
        · rw [if_neg (by omega)]
          exact ⟨_, _, rfl⟩
        · exact ⟨_, _, rfl⟩

end CsInternal.ToyDocker.NetlinkTransaction
