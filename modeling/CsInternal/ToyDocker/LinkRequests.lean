import CsInternal.ToyDocker.NetlinkTransaction

/-!
# The requests of `network.c`

Every function opens a socket, builds one message, waits for the answer of the
kernel to it and releases what it took.  On the other side the kernel reads a
message; what it is asked to do is what the arguments of the function say.
-/

namespace CsInternal.ToyDocker.LinkRequests

open CsInternal.Library.Attributes
open CsInternal.ToyDocker.NetlinkMessage
open CsInternal.ToyDocker.NetlinkTransaction

def EPROTONOSUPPORT : Int := 93
def IFNAMSIZ : Nat := 16
/-- `NLMSG_GOOD_SIZE` -/
def goodSize : Nat := 2 * 4096

def NLM_F_REQUEST : Nat := 0x1
def NLM_F_ACK : Nat := 0x4
def NLM_F_EXCL : Nat := 0x200
def NLM_F_CREATE : Nat := 0x400

def RTM_NEWLINK : Nat := 16
def RTM_DELLINK : Nat := 17
def RTM_NEWADDR : Nat := 20
def RTM_NEWROUTE : Nat := 24

def AF_UNSPEC : Nat := 0
def AF_INET : Nat := 2
def AF_INET6 : Nat := 10

def IFF_UP : BitVec 32 := 1

def IFLA_IFNAME : BitVec 32 := 3
def IFLA_LINKINFO : BitVec 32 := 18
def IFLA_NET_NS_PID : BitVec 32 := 19
def IFLA_INFO_KIND : BitVec 32 := 1
def IFLA_INFO_DATA : BitVec 32 := 2
def VETH_INFO_PEER : BitVec 32 := 1

def IFA_ADDRESS : BitVec 32 := 1
def IFA_LOCAL : BitVec 32 := 2
def IFA_BROADCAST : BitVec 32 := 4

def RTA_DST : BitVec 32 := 1
def RTA_OIF : BitVec 32 := 4
def RTA_GATEWAY : BitVec 32 := 5

def RT_TABLE_MAIN : Nat := 254
def RT_SCOPE_UNIVERSE : Nat := 0
def RT_SCOPE_LINK : Nat := 253
def RTPROT_BOOT : Nat := 3
def RTN_UNICAST : Nat := 1

/-- What the calls of a function outside it give. -/
structure Env extends Kernel where
  /-- the two calls of `malloc` in `nlmsg_alloc`, for the request and for the answer -/
  requestMalloc : Bool × Bool
  answerMalloc : Bool × Bool
  ifNametoindex : CString → BitVec 32

/-- What is open or allocated, and the messages that `sendmsg` has been given. -/
structure World where
  sockets : Nat
  blocks : Nat
  sent : List (List Byte)
  deriving DecidableEq

/-- A message is two blocks; where the second is not to be had, the first is freed. -/
def World.allocated (w : World) : Option Nlmsg → World
  | none => w
  | some _ => { w with blocks := w.blocks + 2 }

def World.freed (w : World) : Option Nlmsg → World
  | none => w
  | some _ => { w with blocks := w.blocks - 2 }

/-- The stores into the request and the transaction, up to the label `out`, with `err`
there and the two pointers. -/
def transact (env : Env) (fill : Nlmsg → Option (Int × Nlmsg)) (nlmsg : Nlmsg)
    (answer : Option Nlmsg) (w : World) :
    Except Stuck (Int × Option Nlmsg × Option Nlmsg × World) :=
  match fill nlmsg with
  | none => .error .undefined
  | some (err, nlmsg) =>
      if err ≠ 0 then .ok (err, some nlmsg, answer, w)
      else do
        let (err, sent, _) ← netlinkTransaction env.toKernel nlmsg (answer.getD nlmsg)
        .ok (err, some nlmsg, answer, { w with sent := w.sent ++ [sent] })

/-- From `nlmsg_alloc` to the label `out`. -/
def attempt (env : Env) (ownAnswer : Bool) (fill : Nlmsg → Option (Int × Nlmsg)) (w : World) :
    Except Stuck (Int × Option Nlmsg × Option Nlmsg × World) :=
  match nlmsgAlloc env.requestMalloc.1 env.requestMalloc.2 goodSize with
  | none => .ok (-ENOMEM, none, none, w)
  | some nlmsg =>
      let w := w.allocated (some nlmsg)
      if ownAnswer then
        match nlmsgAllocReserve env.answerMalloc.1 env.answerMalloc.2 goodSize with
        | none => .ok (-ENOMEM, some nlmsg, none, w)
        | some answer => transact env fill nlmsg (some answer) (w.allocated (some answer))
      else transact env fill nlmsg none w

/-- The functions between `netlink_open` and `return err`: a test of the names that
leads to `out`, an answer of its own or the request in its place, and the stores
that fill the request, with the `err` that they lead to `out` with. -/
def request (env : Env) (named ownAnswer : Bool) (fill : Nlmsg → Option (Int × Nlmsg))
    (w : World) : Except Stuck (Int × World) :=
  let (err, opened) := netlinkOpen env.toKernel
  let w := if opened then { w with sockets := w.sockets + 1 } else w
  if err ≠ 0 then .ok (err, w)
  else do
    let (err, nlmsg, answer, w) ←
      if named then attempt env ownAnswer fill w else .ok (-EINVAL, none, none, w)
    let w := { w with sockets := w.sockets - 1 }
    .ok (err, (w.freed nlmsg).freed answer)

/-- `int len = strlen(name)` keeps the low 32 bits. -/
def intLen (name : CString) : Int := (BitVec.ofNat 32 (strlen name)).toInt

/-- `len == 1 || len >= IFNAMSIZ` is not so. -/
def goodName (name : CString) : Bool := ¬ (intLen name = 1 ∨ (IFNAMSIZ : Int) ≤ intLen name)

/-- `if (call) goto out;` -/
def orOut (err : Int) (call : Option (Int × Nlmsg)) (next : Nlmsg → Option (Int × Nlmsg)) :
    Option (Int × Nlmsg) := do
  let (ret, nlmsg) ← call
  if ret ≠ 0 then some (err, nlmsg) else next nlmsg

/-- `if (!call) goto out;` -/
def orNull (err : Int) (call : Option (Option Nat × Nlmsg))
    (next : Nat → Nlmsg → Option (Int × Nlmsg)) : Option (Int × Nlmsg) := do
  let (pointer, nlmsg) ← call
  pointer.elim (some (err, nlmsg)) fun pointer => next pointer nlmsg

/-- The front of every request: the flags, the type and room for a structure, through
the pointer to which it is stored without a test. -/
def head (flags type size : Nat) (nlmsg : Nlmsg) : Option (Nat × Nlmsg) := do
  let nlmsg ← nlmsg.setFlags flags
  let nlmsg ← nlmsg.setType type
  let (pointer, nlmsg) ← nlmsgReserve nlmsg size
  let pointer ← pointer
  some (pointer, nlmsg)

/-- `field |= value` of four bytes -/
def orField (nlmsg : Nlmsg) (offset : Nat) (value : BitVec 32) : Option Nlmsg :=
  nlmsg.store offset
    (toLE 4 (BitVec.ofNat 32 (fromLE (load nlmsg.nlmsghdr offset 4)) ||| value).toNat)

def netdevSetFlag.fill (index flag : BitVec 32) (nlmsg : Nlmsg) : Option (Int × Nlmsg) :=
  if index = 0 then some (-EINVAL, nlmsg)
  else do
    let (ifi, nlmsg) ← head (NLM_F_REQUEST ||| NLM_F_ACK) RTM_NEWLINK 16 nlmsg
    let nlmsg ← nlmsg.store ifi (toLE 1 AF_UNSPEC)
    let nlmsg ← nlmsg.store (ifi + 4) (toLE 4 index.toNat)
    let nlmsg ← orField nlmsg (ifi + 12) IFF_UP
    let nlmsg ← orField nlmsg (ifi + 8) flag
    some (0, nlmsg)

def netdevSetFlag (env : Env) (name : CString) (flag : BitVec 32) :
    World → Except Stuck (Int × World) :=
  request env (goodName name) true (netdevSetFlag.fill (env.ifNametoindex name) flag)

def lxcNetdevUp (env : Env) (name : CString) : World → Except Stuck (Int × World) :=
  netdevSetFlag env name IFF_UP

def lxcNetdevDown (env : Env) (name : CString) : World → Except Stuck (Int × World) :=
  netdevSetFlag env name 0

def veth : CString := ⟨[0x76, 0x65, 0x74, 0x68], by decide⟩

def lxcVethCreate.fill (name1 name2 : CString) (nlmsg : Nlmsg) : Option (Int × Nlmsg) := do
  let (ifi, nlmsg) ←
    head (NLM_F_REQUEST ||| NLM_F_CREATE ||| NLM_F_EXCL ||| NLM_F_ACK) RTM_NEWLINK 16 nlmsg
  let nlmsg ← nlmsg.store ifi (toLE 1 AF_UNSPEC)
  orNull (-EINVAL) (nlaBeginNested nlmsg IFLA_LINKINFO) fun nest1 nlmsg =>
    orOut (-EINVAL) (nlaPutString nlmsg IFLA_INFO_KIND veth) fun nlmsg =>
      orNull (-EINVAL) (nlaBeginNested nlmsg IFLA_INFO_DATA) fun nest2 nlmsg =>
        orNull (-EINVAL) (nlaBeginNested nlmsg VETH_INFO_PEER) fun nest3 nlmsg =>
          orNull (-EINVAL) (nlmsgReserve nlmsg 16) fun _ nlmsg =>
            orOut (-EINVAL) (nlaPutString nlmsg IFLA_IFNAME name2) fun nlmsg => do
              let nlmsg ← nlaEndNested nlmsg nest3
              let nlmsg ← nlaEndNested nlmsg nest2
              let nlmsg ← nlaEndNested nlmsg nest1
              orOut (-EINVAL) (nlaPutString nlmsg IFLA_IFNAME name1) fun nlmsg => some (0, nlmsg)

def lxcVethCreate (env : Env) (name1 name2 : CString) : World → Except Stuck (Int × World) :=
  request env (goodName name1 && goodName name2) true (lxcVethCreate.fill name1 name2)

def lxcNetdevMoveByIndex.fill (ifindex pid : BitVec 32) (ifname : Option CString)
    (nlmsg : Nlmsg) : Option (Int × Nlmsg) := do
  let (ifi, nlmsg) ← head (NLM_F_REQUEST ||| NLM_F_ACK) RTM_NEWLINK 16 nlmsg
  let nlmsg ← nlmsg.store ifi (toLE 1 AF_UNSPEC)
  let nlmsg ← nlmsg.store (ifi + 4) (toLE 4 ifindex.toNat)
  orOut (-ENOMEM) (nlaPutU32 nlmsg IFLA_NET_NS_PID pid) fun nlmsg =>
    match ifname with
    | none => some (0, nlmsg)
    | some ifname =>
        orOut (-ENOMEM) (nlaPutString nlmsg IFLA_IFNAME ifname) fun nlmsg => some (0, nlmsg)

/-- The request is the answer as well. -/
def lxcNetdevMoveByIndex (env : Env) (ifindex pid : BitVec 32) (ifname : Option CString) :
    World → Except Stuck (Int × World) :=
  request env true false (lxcNetdevMoveByIndex.fill ifindex pid ifname)

def lxcNetdevMoveByName (env : Env) (ifname : Option CString) (pid : BitVec 32)
    (newname : Option CString) (w : World) : Except Stuck (Int × World) :=
  match ifname with
  | none => .ok (-EINVAL, w)
  | some ifname =>
      let index := env.ifNametoindex ifname
      if index = 0 then .ok (-EINVAL, w) else lxcNetdevMoveByIndex env index pid newname w

/-- The bytes that a pointer to an address of the family stands for. -/
def addressBytes (family : Nat) (addr : List Byte) : Option (List Byte) :=
  let addrlen := if family = AF_INET then 4 else 16
  if addr.length < addrlen then none else some (addr.take addrlen)

/-- `memcmp(addr, &in6addr_any, sizeof(in6addr_any))` is not zero. -/
def notAny (addr : List Byte) : Option Bool :=
  if addr.length < 16 then none else some (addr.take 16 != List.replicate 16 0)

def ipAddrAdd.fill (family : Nat) (ifindex : BitVec 32) (addr bcast : List Byte)
    (acast : Option (List Byte)) (prefixlen : BitVec 32) (nlmsg : Nlmsg) :
    Option (Int × Nlmsg) := do
  let (ifa, nlmsg) ←
    head (NLM_F_ACK ||| NLM_F_REQUEST ||| NLM_F_CREATE ||| NLM_F_EXCL) RTM_NEWADDR 8 nlmsg
  let nlmsg ← nlmsg.store (ifa + 1) (toLE 1 prefixlen.toNat)
  let nlmsg ← nlmsg.store (ifa + 4) (toLE 4 ifindex.toNat)
  let nlmsg ← nlmsg.store ifa (toLE 1 family)
  let nlmsg ← nlmsg.store (ifa + 3) (toLE 1 0)
  let address ← addressBytes family addr
  orOut (-EINVAL) (nlaPutBuffer nlmsg IFA_LOCAL address) fun nlmsg =>
    orOut (-EINVAL) (nlaPutBuffer nlmsg IFA_ADDRESS address) fun nlmsg => do
      let broadcast ← addressBytes family bcast
      orOut (-EINVAL) (nlaPutBuffer nlmsg IFA_BROADCAST broadcast) fun nlmsg => do
        let unsupported ←
          if family = AF_INET6 then do
            if ← notAny bcast then some true else notAny (← acast)
          else some false
        if unsupported then some (-EPROTONOSUPPORT, nlmsg) else some (0, nlmsg)

def ipAddrAdd (env : Env) (family : Nat) (ifindex : BitVec 32) (addr bcast : List Byte)
    (acast : Option (List Byte)) (prefixlen : BitVec 32) : World → Except Stuck (Int × World) :=
  request env true true (ipAddrAdd.fill family ifindex addr bcast acast prefixlen)

/-- `struct in_addr` -/
def InAddr := { bytes : List Byte // bytes.length = 4 }

def lxcIpv4AddrAdd (env : Env) (ifindex : BitVec 32) (addr bcast : InAddr)
    (prefixlen : BitVec 32) : World → Except Stuck (Int × World) :=
  ipAddrAdd env AF_INET ifindex addr.1 bcast.1 none prefixlen

/-- The stores into `struct rtmsg` that `ip_gateway_add` and `ip_route_dest_add` share. -/
def storeRtmsg (nlmsg : Nlmsg) (rt family scope dstLen : Nat) : Option Nlmsg := do
  let nlmsg ← nlmsg.store rt (toLE 1 family)
  let nlmsg ← nlmsg.store (rt + 4) (toLE 1 RT_TABLE_MAIN)
  let nlmsg ← nlmsg.store (rt + 6) (toLE 1 scope)
  let nlmsg ← nlmsg.store (rt + 5) (toLE 1 RTPROT_BOOT)
  let nlmsg ← nlmsg.store (rt + 7) (toLE 1 RTN_UNICAST)
  nlmsg.store (rt + 1) (toLE 1 dstLen)

/-- `ip_gateway_add` and `ip_route_dest_add` differ in the scope, the length of the
destination and the attribute with the address. -/
def routeFill (family scope dstLen : Nat) (attr ifindex : BitVec 32) (addr : List Byte)
    (nlmsg : Nlmsg) : Option (Int × Nlmsg) := do
  let (rt, nlmsg) ←
    head (NLM_F_ACK ||| NLM_F_REQUEST ||| NLM_F_CREATE ||| NLM_F_EXCL) RTM_NEWROUTE 12 nlmsg
  let nlmsg ← storeRtmsg nlmsg rt family scope dstLen
  let bytes ← addressBytes family addr
  orOut (-EINVAL) (nlaPutBuffer nlmsg attr bytes) fun nlmsg =>
    orOut (-EINVAL) (nlaPutU32 nlmsg RTA_OIF ifindex) fun nlmsg => some (0, nlmsg)

def ipGatewayAdd (env : Env) (family : Nat) (ifindex : BitVec 32) (gw : List Byte) :
    World → Except Stuck (Int × World) :=
  request env true true (routeFill family RT_SCOPE_UNIVERSE 0 RTA_GATEWAY ifindex gw)

def lxcIpv4GatewayAdd (env : Env) (ifindex : BitVec 32) (gw : InAddr) :
    World → Except Stuck (Int × World) :=
  ipGatewayAdd env AF_INET ifindex gw.1

def ipRouteDestAdd (env : Env) (family : Nat) (ifindex : BitVec 32) (dest : List Byte) :
    World → Except Stuck (Int × World) :=
  let addrlen := if family = AF_INET then 4 else 16
  request env true true (routeFill family RT_SCOPE_LINK (addrlen * 8) RTA_DST ifindex dest)

def lxcIpv4DestAdd (env : Env) (ifindex : BitVec 32) (dest : InAddr) :
    World → Except Stuck (Int × World) :=
  ipRouteDestAdd env AF_INET ifindex dest.1

def lxcNetdevDeleteByIndex.fill (ifindex : BitVec 32) (nlmsg : Nlmsg) :
    Option (Int × Nlmsg) := do
  let (ifi, nlmsg) ← head (NLM_F_ACK ||| NLM_F_REQUEST) RTM_DELLINK 16 nlmsg
  let nlmsg ← nlmsg.store ifi (toLE 1 AF_UNSPEC)
  let nlmsg ← nlmsg.store (ifi + 4) (toLE 4 ifindex.toNat)
  some (0, nlmsg)

def lxcNetdevDeleteByIndex (env : Env) (ifindex : BitVec 32) : World → Except Stuck (Int × World) :=
  request env true true (lxcNetdevDeleteByIndex.fill ifindex)

def lxcNetdevDeleteByName (env : Env) (name : CString) (w : World) :
    Except Stuck (Int × World) :=
  let index := env.ifNametoindex name
  if index = 0 then .ok (-EINVAL, w) else lxcNetdevDeleteByIndex env index w

/-! ## Messages as they are filled -/

structure IsDraft (nlmsg : Nlmsg) (type flags : Nat) (body : List Byte) (room : Nat) : Prop where
  draft : ∃ d : Draft, nlmsg = d.message ∧ d.type = type ∧ d.flags = flags ∧ d.body = body ∧
    d.room = room

namespace IsDraft

variable {nlmsg : Nlmsg} {type flags room : Nat} {body : List Byte}

theorem setFlags (hdraft : IsDraft nlmsg type flags body room) (n : Nat) :
    ∃ nlmsg', nlmsg.setFlags n = some nlmsg' ∧ IsDraft nlmsg' type n body room := by
  obtain ⟨d, rfl, rfl, rfl, rfl, rfl⟩ := hdraft
  exact ⟨_, ofParts_setFlags _ _ _ _ _ n, { d with flags := n }, rfl, rfl, rfl, rfl, rfl⟩

theorem setType (hdraft : IsDraft nlmsg type flags body room) (n : Nat) :
    ∃ nlmsg', nlmsg.setType n = some nlmsg' ∧ IsDraft nlmsg' n flags body room := by
  obtain ⟨d, rfl, rfl, rfl, rfl, rfl⟩ := hdraft
  exact ⟨_, ofParts_setType _ _ _ _ _ n, { d with type := n }, rfl, rfl, rfl, rfl, rfl⟩

theorem reserve (hdraft : IsDraft nlmsg type flags body room) (size : Nat)
    (hfit : align4 size ≤ room) :
    ∃ nlmsg', nlmsgReserve nlmsg size = some (some (16 + body.length), nlmsg') ∧
      IsDraft nlmsg' type flags (body ++ List.replicate (align4 size) 0) (room - align4 size) := by
  obtain ⟨d, rfl, rfl, rfl, rfl, rfl⟩ := hdraft
  exact ⟨_, nlmsgReserve_message d hfit, _, rfl, rfl, rfl, rfl,
    congrArg (d.room - ·) List.length_replicate⟩

theorem store (hdraft : IsDraft nlmsg type flags body room) (offset : Nat) (bytes : List Byte)
    (hoffset : 16 ≤ offset) (hfit : offset - 16 + bytes.length ≤ body.length) :
    ∃ nlmsg', nlmsg.store offset bytes = some nlmsg' ∧
      IsDraft nlmsg' type flags (overwrite body (offset - 16) bytes) room := by
  obtain ⟨d, rfl, rfl, rfl, rfl, rfl⟩ := hdraft
  have hstore := d.store_message hfit
  rw [Nat.add_sub_cancel' hoffset] at hstore
  exact ⟨_, hstore, _, rfl, rfl, rfl, rfl, rfl⟩

theorem put (hdraft : IsDraft nlmsg type flags body room) (attr : BitVec 32) (data : List Byte)
    (hfit : (Attr.bytes ⟨attr.toNat, data⟩).length ≤ room) :
    ∃ nlmsg', nlaPut nlmsg attr data = some (0, nlmsg') ∧
      IsDraft nlmsg' type flags (body ++ Attr.bytes ⟨attr.toNat, data⟩)
        (room - (Attr.bytes ⟨attr.toNat, data⟩).length) := by
  obtain ⟨d, rfl, rfl, rfl, rfl, rfl⟩ := hdraft
  exact ⟨_, nlaPut_message d attr data hfit, _, rfl, rfl, rfl, rfl, rfl⟩

theorem beginNested (hdraft : IsDraft nlmsg type flags body room) (attr : BitVec 32)
    (hfit : 4 ≤ room) :
    ∃ nlmsg', nlaBeginNested nlmsg attr = some (some (16 + body.length), nlmsg') ∧
      IsDraft nlmsg' type flags (body ++ header attr.toNat 0) (room - 4) := by
  obtain ⟨d, rfl, rfl, rfl, rfl, rfl⟩ := hdraft
  exact ⟨_, nlaBeginNested_message d attr hfit, _, rfl, rfl, rfl, rfl,
    congrArg (d.room - ·) (length_header _ _)⟩

theorem endNested (hdraft : IsDraft nlmsg type flags body room) (offset : Nat)
    (hfit : offset + 2 ≤ body.length) :
    ∃ nlmsg', nlaEndNested nlmsg (16 + offset) = some nlmsg' ∧
      IsDraft nlmsg' type flags
        (overwrite body offset (toLE 2 (body.length - offset))) room := by
  obtain ⟨d, rfl, rfl, rfl, rfl, rfl⟩ := hdraft
  exact ⟨_, nlaEndNested_message d hfit, _, rfl, rfl, rfl, rfl, rfl⟩

theorem load_eq (hdraft : IsDraft nlmsg type flags body room) {offset n : Nat}
    (hoffset : 16 ≤ offset) (hfit : offset - 16 + n ≤ body.length) :
    load nlmsg.nlmsghdr offset n = load body (offset - 16) n := by
  obtain ⟨k, rfl⟩ := Nat.exists_eq_add_of_le hoffset
  rw [Nat.add_sub_cancel_left] at hfit ⊢
  obtain ⟨d, rfl, rfl, rfl, rfl, rfl⟩ := hdraft
  have hblock : d.message.nlmsghdr = (toLE 4 (16 + d.body.length) ++ (toLE 2 d.type ++
      (toLE 2 d.flags ++ List.replicate 8 0))) ++ (d.body ++ List.replicate d.room 0) := by
    simp only [Draft.message, ofParts, List.append_assoc]
  have hlength : (toLE 4 (16 + d.body.length) ++ (toLE 2 d.type ++
      (toLE 2 d.flags ++ List.replicate 8 (0 : Byte)))).length = 16 := by
    simp only [List.length_append, length_toLE, List.length_replicate]
  rw [load, load, hblock, ← List.drop_drop, List.drop_left' hlength,
    List.drop_append_of_le_length (by omega),
    List.take_append_of_le_length (by rw [List.length_drop]; omega)]

theorem orField (hdraft : IsDraft nlmsg type flags body room) (offset : Nat) (value : BitVec 32)
    (hoffset : 16 ≤ offset) (hfit : offset - 16 + 4 ≤ body.length) :
    ∃ nlmsg', LinkRequests.orField nlmsg offset value = some nlmsg' ∧
      IsDraft nlmsg' type flags (overwrite body (offset - 16)
        (toLE 4 (BitVec.ofNat 32 (fromLE (load body (offset - 16) 4)) ||| value).toNat)) room := by
  rw [LinkRequests.orField, hdraft.load_eq hoffset hfit]
  exact hdraft.store _ _ hoffset (by rw [length_toLE]; exact hfit)

theorem head (hdraft : IsDraft nlmsg type flags [] room) (flags' type' size : Nat)
    (hfit : align4 size ≤ room) :
    ∃ nlmsg', LinkRequests.head flags' type' size nlmsg = some (16, nlmsg') ∧
      IsDraft nlmsg' type' flags' (List.replicate (align4 size) 0) (room - align4 size) := by
  obtain ⟨flagged, hflags, hflagged⟩ := hdraft.setFlags flags'
  obtain ⟨typed, htype, htyped⟩ := hflagged.setType type'
  obtain ⟨reserved, hreserve, hreserved⟩ := htyped.reserve size hfit
  refine ⟨reserved, ?_, by rw [List.nil_append] at hreserved; exact hreserved⟩
  rw [LinkRequests.head, hflags, Option.bind_eq_bind, Option.bind_some, htype,
    Option.bind_eq_bind, Option.bind_some, hreserve]
  rfl

end IsDraft

/-- `struct ifinfomsg` -/
def ifinfomsg (index flags change : BitVec 32) : List Byte :=
  toLE 1 AF_UNSPEC ++ (List.replicate 3 0 ++ (toLE 4 index.toNat ++ (toLE 4 flags.toNat ++
    toLE 4 change.toNat)))

/-- `struct ifaddrmsg` -/
def ifaddrmsg (family : Nat) (prefixlen ifindex : BitVec 32) : List Byte :=
  toLE 1 family ++ (toLE 1 prefixlen.toNat ++ (toLE 1 0 ++ (toLE 1 0 ++ toLE 4 ifindex.toNat)))

/-- `struct rtmsg` -/
def rtmsg (family dstLen scope : Nat) : List Byte :=
  toLE 1 family ++ (toLE 1 dstLen ++ (List.replicate 2 0 ++ (toLE 1 RT_TABLE_MAIN ++
    (toLE 1 RTPROT_BOOT ++ (toLE 1 scope ++ (toLE 1 RTN_UNICAST ++ List.replicate 4 0))))))

theorem length_ifinfomsg (index flags change : BitVec 32) :
    (ifinfomsg index flags change).length = 16 := rfl

theorem length_ifaddrmsg (family : Nat) (prefixlen ifindex : BitVec 32) :
    (ifaddrmsg family prefixlen ifindex).length = 8 := rfl

theorem length_rtmsg (family dstLen scope : Nat) : (rtmsg family dstLen scope).length = 12 := rfl

/-- A new message is filled with this type, these flags and this body. -/
def Fills (fill : Nlmsg → Option (Int × Nlmsg)) (type flags : Nat) (body : List Byte) : Prop :=
  ∀ nlmsg, IsDraft nlmsg 0 0 [] goodSize →
    ∃ nlmsg' room, fill nlmsg = some (0, nlmsg') ∧ IsDraft nlmsg' type flags body room

/-- A bound between numbers that are computed. -/
theorem le_of_ble {m n : Nat} (h : Nat.ble m n = true) : m ≤ n := Nat.le_of_ble_eq_true h

theorem lxcNetdevDeleteByIndex_fill (ifindex : BitVec 32) :
    Fills (lxcNetdevDeleteByIndex.fill ifindex) RTM_DELLINK (NLM_F_ACK ||| NLM_F_REQUEST)
      (ifinfomsg ifindex 0 0) := by
  intro nlmsg hnlmsg
  obtain ⟨m1, h1, hd1⟩ := hnlmsg.head (NLM_F_ACK ||| NLM_F_REQUEST) RTM_DELLINK 16
    (by decide)
  obtain ⟨m2, h2, hd2⟩ := hd1.store 16 (toLE 1 AF_UNSPEC) (by decide) (le_of_ble rfl)
  obtain ⟨m3, h3, hd3⟩ := hd2.store (16 + 4) (toLE 4 ifindex.toNat) (by decide) (le_of_ble rfl)
  refine ⟨m3, _, ?_, hd3⟩
  rw [lxcNetdevDeleteByIndex.fill, h1]
  simp only [Option.bind_eq_bind, Option.bind_some, h2, h3]

theorem netdevSetFlag_fill {index : BitVec 32} (flag : BitVec 32) (hindex : index ≠ 0) :
    Fills (netdevSetFlag.fill index flag) RTM_NEWLINK (NLM_F_REQUEST ||| NLM_F_ACK)
      (ifinfomsg index flag IFF_UP) := by
  intro nlmsg hnlmsg
  obtain ⟨m1, h1, hd1⟩ := hnlmsg.head (NLM_F_REQUEST ||| NLM_F_ACK) RTM_NEWLINK 16
    (by decide)
  obtain ⟨m2, h2, hd2⟩ := hd1.store 16 (toLE 1 AF_UNSPEC) (by decide) (le_of_ble rfl)
  obtain ⟨m3, h3, hd3⟩ := hd2.store (16 + 4) (toLE 4 index.toNat) (by decide) (le_of_ble rfl)
  obtain ⟨m4, h4, hd4⟩ := hd3.orField (16 + 12) IFF_UP (by decide) (le_of_ble rfl)
  obtain ⟨m5, h5, hd5⟩ := hd4.orField (16 + 8) flag (by decide) (le_of_ble rfl)
  have hbody : IsDraft m5 RTM_NEWLINK (NLM_F_REQUEST ||| NLM_F_ACK)
      (ifinfomsg index (0#32 ||| flag) (0#32 ||| IFF_UP)) (goodSize - align4 16) := hd5
  rw [BitVec.zero_or, BitVec.zero_or] at hbody
  refine ⟨m5, _, ?_, hbody⟩
  rw [netdevSetFlag.fill, if_neg hindex, h1]
  simp only [Option.bind_eq_bind, Option.bind_some, h2, h3, h4, h5]

@[simp] theorem orOut_zero (err : Int) (nlmsg : Nlmsg) (next : Nlmsg → Option (Int × Nlmsg)) :
    orOut err (some (0, nlmsg)) next = next nlmsg := rfl

theorem orOut_ne {ret : Int} (hret : ret ≠ 0) (err : Int) (nlmsg : Nlmsg)
    (next : Nlmsg → Option (Int × Nlmsg)) :
    orOut err (some (ret, nlmsg)) next = some (err, nlmsg) := by
  rw [orOut, Option.bind_eq_bind, Option.bind_some]
  exact if_pos hret

@[simp] theorem orNull_some (err : Int) (pointer : Nat) (nlmsg : Nlmsg)
    (next : Nat → Nlmsg → Option (Int × Nlmsg)) :
    orNull err (some (some pointer, nlmsg)) next = next pointer nlmsg := rfl

/-- A name of an interface, as an attribute. -/
def nameAttr (name : CString) : Attr := ⟨IFLA_IFNAME.toNat, name.bytes ++ [0]⟩

def nameItem (name : CString) : Item := .attr IFLA_IFNAME.toNat (name.bytes ++ [0])

theorem length_nameAttr (name : CString) :
    (nameAttr name).bytes.length = align4 (5 + name.bytes.length) := by
  rw [Attr.length_bytes, nameAttr, List.length_append, List.length_singleton, Nat.add_comm _ 1,
    ← Nat.add_assoc]

/-- A name whose length does not wrap around in `nla_put`. -/
def NameBounded (name : CString) : Prop := name.bytes.length + 8 < 2 ^ 32

/-- From 2³¹ bytes on, `len` is negative. -/
theorem short_or_negative {name : CString} (hname : goodName name = true)
    (hbound : NameBounded name) : name.bytes.length < 16 ∨ 2 ^ 31 ≤ name.bytes.length := by
  have hlen := of_decide_eq_true hname
  rw [NameBounded] at hbound
  rw [intLen, strlen, IFNAMSIZ, BitVec.toInt_eq_toNat_cond, BitVec.toNat_ofNat,
    Nat.mod_eq_of_lt (by omega)] at hlen
  split at hlen
  · omega
  · omega

theorem goodName_of_length {name : CString} {n : Nat} (hlength : name.bytes.length = n)
    (hone : n ≠ 1) (hshort : n < 16) : goodName name = true := by
  refine decide_eq_true ?_
  rw [intLen, strlen, hlength, IFNAMSIZ, BitVec.toInt_eq_toNat_cond, BitVec.toNat_ofNat,
    Nat.mod_eq_of_lt (by omega), if_pos (by omega)]
  omega

namespace IsDraft

variable {nlmsg : Nlmsg} {type flags room : Nat} {outline : Outline}

/-! The body as an outline. -/

theorem ofData {bytes : List Byte} (hdraft : IsDraft nlmsg type flags bytes room)
    (haligned : bytes.length % 4 = 0) :
    IsDraft nlmsg type flags (Outline.root [.data bytes]).bytes room := by
  rw [Outline.bytes, Item.bytesList, Item.bytesList, Item.bytes, pad_of_dvd haligned,
    List.append_nil]
  exact hdraft

theorem beginOutline (hdraft : IsDraft nlmsg type flags outline.bytes room) (attr : BitVec 32)
    (hfit : 4 ≤ room) :
    ∃ nlmsg', nlaBeginNested nlmsg attr = some (some (16 + outline.bytes.length), nlmsg') ∧
      IsDraft nlmsg' type flags (outline.begin attr.toNat).bytes (room - 4) := by
  rw [Outline.bytes_begin]
  exact hdraft.beginNested attr hfit

theorem putOutline (hdraft : IsDraft nlmsg type flags outline.bytes room) (attr : BitVec 32)
    (data : List Byte) (hfit : (Attr.bytes ⟨attr.toNat, data⟩).length ≤ room) :
    ∃ nlmsg', nlaPut nlmsg attr data = some (0, nlmsg') ∧
      IsDraft nlmsg' type flags (outline.push (.attr attr.toNat data)).bytes
        (room - (Attr.bytes ⟨attr.toNat, data⟩).length) := by
  rw [Outline.bytes_push, Item.bytes]
  exact hdraft.put attr data hfit

theorem reserveOutline (hdraft : IsDraft nlmsg type flags outline.bytes room) (size : Nat)
    (haligned : size % 4 = 0) (hfit : size ≤ room) :
    ∃ nlmsg', nlmsgReserve nlmsg size = some (some (16 + outline.bytes.length), nlmsg') ∧
      IsDraft nlmsg' type flags (outline.push (.data (List.replicate size 0))).bytes
        (room - size) := by
  have hpad : (List.replicate size (0 : Byte)).length % 4 = 0 := by
    rw [List.length_replicate, haligned]
  have hreserve := hdraft.reserve size (by rw [align4_of_dvd haligned]; exact hfit)
  rw [align4_of_dvd haligned] at hreserve
  rw [Outline.bytes_push, Item.bytes, pad_of_dvd hpad]
  exact hreserve

theorem closeOutline {outer : Outline} {attr : Nat} {items : List Item}
    (hdraft : IsDraft nlmsg type flags (Outline.nest outer attr items).bytes room) :
    ∃ nlmsg', nlaEndNested nlmsg (16 + outer.bytes.length) = some nlmsg' ∧
      IsDraft nlmsg' type flags (Outline.nest outer attr items).close.bytes room := by
  have hclose := Outline.overwrite_close outer attr items []
  rw [List.append_nil, List.append_nil] at hclose
  rw [← hclose]
  refine hdraft.endNested _ ?_
  rw [Outline.bytes, List.length_append, List.length_append, length_header]
  omega

end IsDraft

/-- The link information that makes a pair of interfaces, level by level. -/
def peerItems (peer : CString) : List Item := [.data (List.replicate 16 0), nameItem peer]

def dataItems (peer : CString) : List Item := [.nest VETH_INFO_PEER.toNat (peerItems peer)]

def infoItems (peer : CString) : List Item :=
  [.attr IFLA_INFO_KIND.toNat (veth.bytes ++ [0]), .nest IFLA_INFO_DATA.toNat (dataItems peer)]

def vethInfo (peer : CString) : Item := .nest IFLA_LINKINFO.toNat (infoItems peer)

def vethRoot : Outline := .root [.data (ifinfomsg 0 0 0)]

def vethKind : Outline :=
  (vethRoot.begin IFLA_LINKINFO.toNat).push (.attr IFLA_INFO_KIND.toNat (veth.bytes ++ [0]))

def vethData : Outline := vethKind.begin IFLA_INFO_DATA.toNat

/-- Where the name of the peer comes. -/
def vethPeer : Outline :=
  (vethData.begin VETH_INFO_PEER.toNat).push (.data (List.replicate 16 0))

/-- Up to the name of the peer there is room, and from it on to the other name. -/
theorem lxcVethCreate_steps (name1 name2 : CString) {nlmsg : Nlmsg}
    (hnlmsg : IsDraft nlmsg 0 0 [] goodSize) :
    ∃ peer, IsDraft peer RTM_NEWLINK (NLM_F_REQUEST ||| NLM_F_CREATE ||| NLM_F_EXCL ||| NLM_F_ACK)
        vethPeer.bytes 8136 ∧
      (∀ err m, err ≠ 0 → nlaPut peer IFLA_IFNAME (name2.bytes ++ [0]) = some (err, m) →
        lxcVethCreate.fill name1 name2 nlmsg = some (-EINVAL, m)) ∧
      ∀ m room, nlaPut peer IFLA_IFNAME (name2.bytes ++ [0]) = some (0, m) →
        IsDraft m RTM_NEWLINK (NLM_F_REQUEST ||| NLM_F_CREATE ||| NLM_F_EXCL ||| NLM_F_ACK)
          (vethPeer.push (nameItem name2)).bytes room →
        ∃ named, IsDraft named RTM_NEWLINK
            (NLM_F_REQUEST ||| NLM_F_CREATE ||| NLM_F_EXCL ||| NLM_F_ACK)
            (vethRoot.push (vethInfo name2)).bytes room ∧
          lxcVethCreate.fill name1 name2 nlmsg =
            orOut (-EINVAL) (nlaPut named IFLA_IFNAME (name1.bytes ++ [0]))
              fun nlmsg => some (0, nlmsg) := by
  obtain ⟨m1, h1, hd1⟩ := hnlmsg.head
    (NLM_F_REQUEST ||| NLM_F_CREATE ||| NLM_F_EXCL ||| NLM_F_ACK) RTM_NEWLINK 16 (by decide)
  obtain ⟨m2, h2, hd2⟩ := hd1.store 16 (toLE 1 AF_UNSPEC) (by decide) (le_of_ble rfl)
  have hinfo : IsDraft m2 _ _ (ifinfomsg 0 0 0) _ := hd2
  have hroot : IsDraft m2 _ _ vethRoot.bytes _ := hinfo.ofData (by rw [length_ifinfomsg])
  obtain ⟨m3, h3, hd3⟩ := hroot.beginOutline IFLA_LINKINFO (by decide)
  obtain ⟨m4, h4, hd4⟩ := hd3.putOutline IFLA_INFO_KIND (veth.bytes ++ [0]) (by decide)
  have hkind : IsDraft m4 _ _ vethKind.bytes _ := hd4
  obtain ⟨m5, h5, hd5⟩ := hkind.beginOutline IFLA_INFO_DATA (by decide)
  have hdata : IsDraft m5 _ _ vethData.bytes _ := hd5
  obtain ⟨m6, h6, hd6⟩ := hdata.beginOutline VETH_INFO_PEER (by decide)
  obtain ⟨m7, h7, hd7⟩ := hd6.reserveOutline 16 (by decide) (by decide)
  refine ⟨m7, hd7, fun err m herr hput => ?_, fun m room hput hm => ?_⟩
  · rw [lxcVethCreate.fill, h1]
    simp only [Option.bind_eq_bind, Option.bind_some, h2, h3, h4, h5, h6, h7, orNull_some,
      orOut_zero, nlaPutString, hput, orOut_ne herr]
  · obtain ⟨m9, h9, hd9⟩ := hm.closeOutline
    obtain ⟨m10, h10, hd10⟩ := hd9.closeOutline
    obtain ⟨m11, h11, hd11⟩ := hd10.closeOutline
    refine ⟨m11, hd11, ?_⟩
    rw [lxcVethCreate.fill, h1]
    simp only [Option.bind_eq_bind, Option.bind_some, h2, h3, h4, h5, h6, h7, orNull_some,
      orOut_zero, nlaPutString, hput, h9, h10, h11]

theorem IsDraft.name_fits {nlmsg : Nlmsg} {type flags room : Nat} {outline : Outline}
    (hdraft : IsDraft nlmsg type flags outline.bytes room) {name : CString}
    (hshort : name.bytes.length < 16) (hroom : 20 ≤ room) :
    ∃ nlmsg' room', nlaPut nlmsg IFLA_IFNAME (name.bytes ++ [0]) = some (0, nlmsg') ∧
      IsDraft nlmsg' type flags (outline.push (nameItem name)).bytes room' ∧
      room' ≤ room ∧ room ≤ room' + 20 := by
  have hlength := length_nameAttr name
  rw [align4, nameAttr] at hlength
  obtain ⟨nlmsg', hput, hdraft'⟩ := hdraft.putOutline IFLA_IFNAME (name.bytes ++ [0])
    (by rw [hlength]; omega)
  exact ⟨nlmsg', _, hput, hdraft', Nat.sub_le _ _, by rw [hlength]; omega⟩

/-- A name that does not fit is noticed, unless its length wraps around. -/
theorem IsDraft.name_full {nlmsg : Nlmsg} {type flags room : Nat} {body : List Byte}
    (hdraft : IsDraft nlmsg type flags body room) {name : CString}
    (hlong : room < 5 + name.bytes.length) (hbound : NameBounded name) :
    nlaPut nlmsg IFLA_IFNAME (name.bytes ++ [0]) = some (-ENOMEM, nlmsg) := by
  have hlength := length_nameAttr name
  rw [align4, nameAttr] at hlength
  rw [NameBounded] at hbound
  obtain ⟨d, rfl, -, -, -, rfl⟩ := hdraft
  exact nlaPut_full d IFLA_IFNAME (name.bytes ++ [0])
    (by rw [List.length_append, List.length_singleton]; omega) (by rw [hlength]; omega)

theorem lxcVethCreate_fill {name1 name2 : CString} (hshort1 : name1.bytes.length < 16)
    (hshort2 : name2.bytes.length < 16) :
    Fills (lxcVethCreate.fill name1 name2) RTM_NEWLINK
      (NLM_F_REQUEST ||| NLM_F_CREATE ||| NLM_F_EXCL ||| NLM_F_ACK)
      (Item.bytesList [.data (ifinfomsg 0 0 0), vethInfo name2, nameItem name1]) := by
  intro nlmsg hnlmsg
  obtain ⟨peer, hpeer, -, hnamed⟩ := lxcVethCreate_steps name1 name2 hnlmsg
  obtain ⟨m8, room, hput2, hd8, -, hroom⟩ := hpeer.name_fits hshort2 (by decide)
  obtain ⟨named, hd11, hfill⟩ := hnamed m8 room hput2 hd8
  obtain ⟨m12, room', hput1, hd12, -⟩ := hd11.name_fits hshort1 (by omega)
  refine ⟨m12, room', ?_, hd12⟩
  rw [hfill, hput1, orOut_zero]

theorem length_wordAttr (type : Nat) {word : List Byte} (hword : word.length = 4) :
    (Attr.bytes ⟨type, word⟩).length = 8 := by
  rw [Attr.length_bytes, hword]
  rfl

/-- A new message is given up with this error. -/
def Rejects (fill : Nlmsg → Option (Int × Nlmsg)) (err : Int) : Prop :=
  err ≠ 0 ∧ ∀ nlmsg, IsDraft nlmsg 0 0 [] goodSize → ∃ nlmsg', fill nlmsg = some (err, nlmsg')

theorem netdevSetFlag_rejects (flag : BitVec 32) :
    Rejects (netdevSetFlag.fill 0 flag) (-EINVAL) :=
  ⟨by decide, fun nlmsg _ => ⟨nlmsg, rfl⟩⟩

/-- A new name that fits behind the index and the process. -/
def NameFits (ifname : Option CString) : Prop := ∀ name ∈ ifname, name.bytes.length ≤ 8163

theorem lxcNetdevMoveByIndex_fill (ifindex pid : BitVec 32) {ifname : Option CString}
    (hfits : NameFits ifname) :
    Fills (lxcNetdevMoveByIndex.fill ifindex pid ifname) RTM_NEWLINK
      (NLM_F_REQUEST ||| NLM_F_ACK)
      (Item.bytesList (.data (ifinfomsg ifindex 0 0) ::
        .attr IFLA_NET_NS_PID.toNat (toLE 4 pid.toNat) :: (ifname.map nameItem).toList)) := by
  intro nlmsg hnlmsg
  obtain ⟨m1, h1, hd1⟩ := hnlmsg.head (NLM_F_REQUEST ||| NLM_F_ACK) RTM_NEWLINK 16 (by decide)
  obtain ⟨m2, h2, hd2⟩ := hd1.store 16 (toLE 1 AF_UNSPEC) (by decide) (le_of_ble rfl)
  obtain ⟨m3, h3, hd3⟩ := hd2.store (16 + 4) (toLE 4 ifindex.toNat) (by decide) (le_of_ble rfl)
  have hinfo : IsDraft m3 _ _ (ifinfomsg ifindex 0 0) _ := hd3
  have hroot := hinfo.ofData (by rw [length_ifinfomsg])
  have hpid := length_wordAttr IFLA_NET_NS_PID.toNat (length_toLE 4 pid.toNat)
  obtain ⟨m4, h4, hd4⟩ := hroot.putOutline IFLA_NET_NS_PID (toLE 4 pid.toNat)
    (by rw [hpid]; decide)
  have hgood : goodSize - align4 16 = 8176 := rfl
  cases ifname with
  | none =>
      refine ⟨m4, _, ?_, hd4⟩
      rw [lxcNetdevMoveByIndex.fill, h1]
      simp only [Option.bind_eq_bind, Option.bind_some, h2, h3, h4, orOut_zero, nlaPutU32]
  | some name =>
      have hlength := length_nameAttr name
      have hshort := hfits name rfl
      rw [align4, nameAttr] at hlength
      obtain ⟨m5, h5, hd5⟩ := hd4.putOutline IFLA_IFNAME (name.bytes ++ [0]) (by
        rw [hlength, hpid, hgood]
        omega)
      refine ⟨m5, _, ?_, hd5⟩
      rw [lxcNetdevMoveByIndex.fill, h1]
      simp only [Option.bind_eq_bind, Option.bind_some, h2, h3, h4, h5, orOut_zero, nlaPutU32,
        nlaPutString]

theorem lxcVethCreate_rejects {name1 name2 : CString} (hbound1 : NameBounded name1)
    (hbound2 : NameBounded name2) (hname2 : name2.bytes.length < 16 ∨ 8136 ≤ name2.bytes.length)
    (hlong : 8136 ≤ name1.bytes.length ∨ 8136 ≤ name2.bytes.length) :
    Rejects (lxcVethCreate.fill name1 name2) (-EINVAL) := by
  refine ⟨by decide, fun nlmsg hnlmsg => ?_⟩
  obtain ⟨peer, hpeer, hfull, hnamed⟩ := lxcVethCreate_steps name1 name2 hnlmsg
  obtain hshort2 | hlong2 := hname2
  · have hlong1 : 8136 ≤ name1.bytes.length := by omega
    obtain ⟨m8, room, hput2, hd8, hroom, -⟩ := hpeer.name_fits hshort2 (by decide)
    obtain ⟨named, hd11, hfill⟩ := hnamed m8 room hput2 hd8
    refine ⟨named, ?_⟩
    rw [hfill, hd11.name_full (by omega) hbound1]
    rfl
  · exact ⟨peer, hfull _ _ (by decide) (hpeer.name_full (by omega) hbound2)⟩

theorem lxcNetdevMoveByIndex_rejects (ifindex pid : BitVec 32) {name : CString}
    (hlong : 8163 < name.bytes.length) (hname : NameBounded name) :
    Rejects (lxcNetdevMoveByIndex.fill ifindex pid (some name)) (-ENOMEM) := by
  refine ⟨by decide, fun nlmsg hnlmsg => ?_⟩
  obtain ⟨m1, h1, hd1⟩ := hnlmsg.head (NLM_F_REQUEST ||| NLM_F_ACK) RTM_NEWLINK 16 (by decide)
  obtain ⟨m2, h2, hd2⟩ := hd1.store 16 (toLE 1 AF_UNSPEC) (by decide) (le_of_ble rfl)
  obtain ⟨m3, h3, hd3⟩ := hd2.store (16 + 4) (toLE 4 ifindex.toNat) (by decide) (le_of_ble rfl)
  have hpid := length_wordAttr IFLA_NET_NS_PID.toNat (length_toLE 4 pid.toNat)
  obtain ⟨m4, h4, hd4⟩ := hd3.put IFLA_NET_NS_PID (toLE 4 pid.toNat) (by rw [hpid]; decide)
  have hroom : goodSize - align4 16 - 8 = 8168 := rfl
  rw [hpid, hroom] at hd4
  refine ⟨m4, ?_⟩
  rw [lxcNetdevMoveByIndex.fill, h1]
  simp only [Option.bind_eq_bind, Option.bind_some, h2, h3, h4, orOut_zero, nlaPutU32,
    nlaPutString]
  rw [hd4.name_full (by omega) hname]
  rfl

theorem addressBytes_inet {addr : List Byte} (haddr : addr.length = 4) :
    addressBytes AF_INET addr = some addr := by
  rw [addressBytes, if_pos rfl, if_neg (by omega), List.take_of_length_le (Nat.le_of_eq haddr)]

theorem lxcIpv4AddrAdd_fill (ifindex prefixlen : BitVec 32) {addr bcast : List Byte}
    (haddr : addr.length = 4) (hbcast : bcast.length = 4) :
    Fills (ipAddrAdd.fill AF_INET ifindex addr bcast none prefixlen) RTM_NEWADDR
      (NLM_F_ACK ||| NLM_F_REQUEST ||| NLM_F_CREATE ||| NLM_F_EXCL)
      (Item.bytesList [.data (ifaddrmsg AF_INET prefixlen ifindex), .attr IFA_LOCAL.toNat addr,
        .attr IFA_ADDRESS.toNat addr, .attr IFA_BROADCAST.toNat bcast]) := by
  intro nlmsg hnlmsg
  obtain ⟨m1, h1, hd1⟩ := hnlmsg.head
    (NLM_F_ACK ||| NLM_F_REQUEST ||| NLM_F_CREATE ||| NLM_F_EXCL) RTM_NEWADDR 8 (by decide)
  obtain ⟨m2, h2, hd2⟩ := hd1.store (16 + 1) (toLE 1 prefixlen.toNat) (by decide) (le_of_ble rfl)
  obtain ⟨m3, h3, hd3⟩ := hd2.store (16 + 4) (toLE 4 ifindex.toNat) (by decide) (le_of_ble rfl)
  obtain ⟨m4, h4, hd4⟩ := hd3.store 16 (toLE 1 AF_INET) (by decide) (le_of_ble rfl)
  obtain ⟨m5, h5, hd5⟩ := hd4.store (16 + 3) (toLE 1 0) (by decide) (le_of_ble rfl)
  have hinfo : IsDraft m5 _ _ (ifaddrmsg AF_INET prefixlen ifindex) _ := hd5
  have hroot := hinfo.ofData (by rw [length_ifaddrmsg])
  have hlength := fun type => length_wordAttr type haddr
  have hgood : goodSize - align4 8 = 8184 := rfl
  obtain ⟨m6, h6, hd6⟩ := hroot.putOutline IFA_LOCAL addr (by rw [hlength, hgood]; decide)
  obtain ⟨m7, h7, hd7⟩ := hd6.putOutline IFA_ADDRESS addr (by rw [hlength, hlength, hgood]; decide)
  obtain ⟨m8, h8, hd8⟩ := hd7.putOutline IFA_BROADCAST bcast (by
    rw [hlength, hlength, length_wordAttr _ hbcast, hgood]
    decide)
  refine ⟨m8, _, ?_, hd8⟩
  have hfour : AF_INET ≠ AF_INET6 := by decide
  rw [ipAddrAdd.fill, h1, addressBytes_inet haddr, addressBytes_inet hbcast]
  simp only [Option.bind_eq_bind, Option.bind_some, h2, h3, h4, h5, h6, h7, h8, orOut_zero,
    nlaPutBuffer, if_neg hfour, Bool.false_eq_true, ↓reduceIte]

theorem route_fill (dstLen scope : Nat) (attr ifindex : BitVec 32) {addr : List Byte}
    (haddr : addr.length = 4) :
    Fills (routeFill AF_INET scope dstLen attr ifindex addr) RTM_NEWROUTE
      (NLM_F_ACK ||| NLM_F_REQUEST ||| NLM_F_CREATE ||| NLM_F_EXCL)
      (Item.bytesList [.data (rtmsg AF_INET dstLen scope), .attr attr.toNat addr,
        .attr RTA_OIF.toNat (toLE 4 ifindex.toNat)]) := by
  intro nlmsg hnlmsg
  obtain ⟨m1, h1, hd1⟩ := hnlmsg.head
    (NLM_F_ACK ||| NLM_F_REQUEST ||| NLM_F_CREATE ||| NLM_F_EXCL) RTM_NEWROUTE 12 (by decide)
  obtain ⟨m2, h2, hd2⟩ := hd1.store 16 (toLE 1 AF_INET) (by decide) (le_of_ble rfl)
  obtain ⟨m3, h3, hd3⟩ := hd2.store (16 + 4) (toLE 1 RT_TABLE_MAIN) (by decide) (le_of_ble rfl)
  obtain ⟨m4, h4, hd4⟩ := hd3.store (16 + 6) (toLE 1 scope) (by decide) (le_of_ble rfl)
  obtain ⟨m5, h5, hd5⟩ := hd4.store (16 + 5) (toLE 1 RTPROT_BOOT) (by decide) (le_of_ble rfl)
  obtain ⟨m6, h6, hd6⟩ := hd5.store (16 + 7) (toLE 1 RTN_UNICAST) (by decide) (le_of_ble rfl)
  obtain ⟨m7, h7, hd7⟩ := hd6.store (16 + 1) (toLE 1 dstLen) (by decide) (le_of_ble rfl)
  have hinfo : IsDraft m7 _ _ (rtmsg AF_INET dstLen scope) _ := hd7
  have hroot := hinfo.ofData (by rw [length_rtmsg])
  have hgood : goodSize - align4 12 = 8180 := rfl
  have hlength := length_wordAttr attr.toNat haddr
  obtain ⟨m8, h8, hd8⟩ := hroot.putOutline attr addr (by rw [hlength, hgood]; decide)
  obtain ⟨m9, h9, hd9⟩ := hd8.putOutline RTA_OIF (toLE 4 ifindex.toNat) (by
    rw [length_wordAttr _ (length_toLE 4 _), hlength, hgood]
    decide)
  refine ⟨m9, _, ?_, hd9⟩
  rw [routeFill, h1, addressBytes_inet haddr]
  simp only [Option.bind_eq_bind, Option.bind_some, storeRtmsg, h2, h3, h4, h5, h6, h7, h8, h9,
    orOut_zero, nlaPutBuffer, nlaPutU32]

/-! ## How a request ends -/

/-- The kernel takes the message and, after interruptions, gives one reply to it. -/
structure Answers (kernel : Kernel) (reply : Reply) : Prop where
  sent : kernel.sendmsg = none
  received : ∃ interrupts later, kernel.recvmsg =
    List.replicate interrupts (.failed EINTR) ++ .datagram reply.bytes :: later
  whole : reply.IsAck → 4 ≤ reply.payload.length

/-- How a function ends that hands over bytes with the property `Sends`, if any, from
the world `w` on. -/
inductive Ends (env : Env) (w : World) (Sends : List Byte → Prop) :
    Except Stuck (Int × World) → Prop where
  /-- `netlink_open` failed; a socket that it got stays open. -/
  | notOpened (herr : (netlinkOpen env.toKernel).1 ≠ 0) :
      Ends env w Sends (.ok ((netlinkOpen env.toKernel).1,
        if env.socket = none then { w with sockets := w.sockets + 1 } else w))
  | notSent (err : Int) (hopened : (netlinkOpen env.toKernel).1 = 0) (herr : err ≠ 0) :
      Ends env w Sends (.ok (err, w))
  | sent (ret : Int) (bytes : List Byte) (hopened : (netlinkOpen env.toKernel).1 = 0)
      (hbytes : Sends bytes)
      (hverdict : ∀ reply, Answers env.toKernel reply → ret = reply.verdict) :
      Ends env w Sends (.ok (ret, { w with sent := w.sent ++ [bytes] }))
  | waiting (interrupts : Nat)
      (hrecv : env.recvmsg = List.replicate interrupts (.failed EINTR)) :
      Ends env w Sends (.error .waiting)

theorem Ends.mono {env : Env} {w : World} {Sends Sends' : List Byte → Prop}
    {result : Except Stuck (Int × World)} (hsends : ∀ bytes, Sends bytes → Sends' bytes)
    (hends : Ends env w Sends result) : Ends env w Sends' result := by
  cases hends with
  | notOpened herr => exact .notOpened herr
  | notSent err hopened herr => exact .notSent err hopened herr
  | sent ret bytes hopened hbytes hverdict =>
      exact .sent ret bytes hopened (hsends bytes hbytes) hverdict
  | waiting interrupts hrecv => exact .waiting interrupts hrecv

theorem netlinkOpen_opened (kernel : Kernel) :
    (netlinkOpen kernel).2 = kernel.socket.isNone := by
  rw [netlinkOpen]
  cases kernel.socket with
  | some errno => rfl
  | none =>
      dsimp only
      repeat' split
      all_goals rfl

theorem netlinkOpen_failed {kernel : Kernel} (hsocket : kernel.socket ≠ none) :
    (netlinkOpen kernel).1 ≠ 0 := by
  obtain ⟨errno, hsocket⟩ := Option.ne_none_iff_exists'.mp hsocket
  have hpositive := errno.positive
  rw [netlinkOpen, hsocket]
  dsimp only
  unfold Errno.negated
  omega

/-- A transaction between two blocks that are large enough. -/
theorem transaction_ends {kernel : Kernel} {request answer : Nlmsg}
    (hrequest : request.nlmsgLen ≤ request.nlmsghdr.length)
    (hblock : answer.nlmsgLen ≤ answer.nlmsghdr.length) (hanswer : 20 ≤ answer.nlmsgLen) :
    (∃ interrupts, kernel.recvmsg = List.replicate interrupts (.failed EINTR)) ∧
        netlinkTransaction kernel request answer = .error .waiting ∨
      ∃ ret answer', netlinkTransaction kernel request answer =
          .ok (ret, request.used, answer') ∧
        ∀ reply, Answers kernel reply → ret = reply.verdict := by
  obtain hwaiting | ⟨ret, answer', hdone⟩ :=
    netlinkTransaction_defined hrequest hblock (by omega)
  · exact .inl hwaiting
  · refine .inr ⟨ret, answer', hdone, ?_⟩
    rintro reply ⟨hsent, ⟨interrupts, later, hrecv⟩, hwhole⟩
    have hreply := netlinkTransaction_reply hrequest hanswer hblock hsent hrecv hwhole
    cases hreply.symm.trans hdone
    rfl

/-- The bytes of a message with this header and body. -/
def messageBytes (type flags : Nat) (body : List Byte) : List Byte :=
  toLE 4 (16 + body.length) ++ (toLE 2 type ++ (toLE 2 flags ++ (List.replicate 8 0 ++ body)))

theorem IsDraft.used {nlmsg : Nlmsg} {type flags room : Nat} {body : List Byte}
    (hdraft : IsDraft nlmsg type flags body room) :
    nlmsg.used = messageBytes type flags body ∧ nlmsg.nlmsgLen = 16 + body.length ∧
      nlmsg.nlmsgLen ≤ nlmsg.nlmsghdr.length := by
  obtain ⟨d, rfl, rfl, rfl, rfl, rfl⟩ := hdraft
  have hbound := d.bound
  have hlength : d.message.nlmsghdr.length = 16 + (d.body ++ List.replicate d.room 0).length :=
    length_ofParts _ _ _ _ _
  rw [List.length_append] at hlength
  refine ⟨ofParts_used _ _ _ _ _ (by omega), d.nlmsgLen_message, ?_⟩
  rw [d.nlmsgLen_message]
  omega

theorem isDraft_new : IsDraft (Draft.empty (nlmsgAlign goodSize) (by decide)).message 0 0 []
    goodSize :=
  ⟨_, rfl, rfl, rfl, rfl, rfl⟩

/-- What a function may do to a new message: fill it to be sent, or give up. -/
inductive FillsOrRejects (fill : Nlmsg → Option (Int × Nlmsg)) (Sends : List Byte → Prop) :
    Prop where
  | fills (type flags : Nat) (body : List Byte) (hbody : 4 ≤ body.length)
      (hfills : Fills fill type flags body) (hsends : Sends (messageBytes type flags body))
  | rejects (err : Int) (hrejects : Rejects fill err)

/-- What `out` leaves of the world of `attempt`. -/
def released (w : World) (sockets : Nat) (nlmsg answer : Option Nlmsg) : World :=
  (({ w with sockets := sockets } : World).freed nlmsg).freed answer

/-- A function comes to `out` and frees what it took: it gives up without a message,
or has handed one over. -/
inductive Leaves (env : Env) (w : World) (Sends : List Byte → Prop) :
    Except Stuck (Int × Option Nlmsg × Option Nlmsg × World) → Prop where
  | gaveUp (err : Int) (nlmsg answer : Option Nlmsg) (w' : World) (herr : err ≠ 0)
      (hsockets : w'.sockets = w.sockets)
      (hfreed : ∀ n, released w' n nlmsg answer = { w with sockets := n }) :
      Leaves env w Sends (.ok (err, nlmsg, answer, w'))
  | sent (ret : Int) (nlmsg answer : Option Nlmsg) (w' : World) (bytes : List Byte)
      (hbytes : Sends bytes) (hsockets : w'.sockets = w.sockets)
      (hfreed : ∀ n, released w' n nlmsg answer =
        { w with sockets := n, sent := w.sent ++ [bytes] })
      (hverdict : ∀ reply, Answers env.toKernel reply → ret = reply.verdict) :
      Leaves env w Sends (.ok (ret, nlmsg, answer, w'))
  | waiting (interrupts : Nat)
      (hrecv : env.recvmsg = List.replicate interrupts (.failed EINTR)) :
      Leaves env w Sends (.error .waiting)

/-- The pointer to an answer is null, or to a block that its header counts. -/
def HoldsAnswer (answer : Option Nlmsg) : Prop :=
  ∀ nlmsg, answer = some nlmsg → 20 ≤ nlmsg.nlmsgLen ∧ nlmsg.nlmsgLen ≤ nlmsg.nlmsghdr.length

theorem transact_leaves {env : Env} {fill : Nlmsg → Option (Int × Nlmsg)}
    {Sends : List Byte → Prop} (hfill : FillsOrRejects fill Sends) {nlmsg : Nlmsg}
    (hnlmsg : IsDraft nlmsg 0 0 [] goodSize) {answer : Option Nlmsg}
    (hanswer : HoldsAnswer answer) {w w' : World} (hsockets : w'.sockets = w.sockets)
    (hsent : w'.sent = w.sent)
    (hblocks : w'.blocks = w.blocks + 2 + if answer = none then 0 else 2) :
    Leaves env w Sends (transact env fill nlmsg answer w') := by
  have hfreed : ∀ (n : Nat) (sent : List (List Byte)) (m : Nlmsg),
      released { w' with sent := sent } n (some m) answer =
        { w with sockets := n, sent := sent } := by
    intro n sent m
    cases answer with
    | none => simp [released, World.freed, hblocks]
    | some answer => simp [released, World.freed, hblocks]
  obtain ⟨type, flags, body, hbody, hfills, hsends⟩ | ⟨err, herr, hrejects⟩ := hfill
  · obtain ⟨filled, room, hfilled, hdraft⟩ := hfills nlmsg hnlmsg
    obtain ⟨hused, hlen, hblock⟩ := hdraft.used
    have hgood : 20 ≤ (answer.getD filled).nlmsgLen ∧
        (answer.getD filled).nlmsgLen ≤ (answer.getD filled).nlmsghdr.length := by
      cases answer with
      | none => exact ⟨by rw [Option.getD_none]; omega, hblock⟩
      | some answer => exact hanswer answer rfl
    have hzero : ¬ (0 : Int) ≠ 0 := fun hne => hne rfl
    rw [transact, hfilled]
    dsimp only
    rw [if_neg hzero]
    obtain ⟨⟨interrupts, hrecv⟩, hwaiting⟩ | ⟨ret, answer', hdone, hverdict⟩ :=
      transaction_ends hblock hgood.2 hgood.1
    · rw [hwaiting]
      exact .waiting interrupts hrecv
    · rw [hdone]
      refine .sent ret _ _ _ _ hsends hsockets (fun n => ?_) hverdict
      rw [hfreed, hsent, hused]
  · obtain ⟨given, hgiven⟩ := hrejects nlmsg hnlmsg
    rw [transact, hgiven]
    dsimp only
    rw [if_pos herr]
    refine .gaveUp err _ _ _ herr hsockets (fun n => ?_)
    exact (hfreed n w'.sent given).trans (by rw [hsent])

theorem attempt_leaves {env : Env} {fill : Nlmsg → Option (Int × Nlmsg)}
    {Sends : List Byte → Prop} (hfill : FillsOrRejects fill Sends) (ownAnswer : Bool)
    (w : World) : Leaves env w Sends (attempt env ownAnswer fill w) := by
  cases hmalloc : env.requestMalloc.1 && env.requestMalloc.2 with
  | false =>
      rw [attempt, nlmsgAlloc_failed hmalloc]
      exact .gaveUp _ _ _ _ (by decide) rfl fun n => rfl
  | true =>
      obtain ⟨hfirst, hsecond⟩ := (Bool.and_eq_true _ _).mp hmalloc
      rw [attempt, hfirst, hsecond, nlmsgAlloc_eq (by decide)]
      dsimp only
      cases ownAnswer with
      | false =>
          rw [if_neg Bool.false_ne_true]
          have hnone : HoldsAnswer none := nofun
          exact transact_leaves hfill isDraft_new hnone rfl rfl rfl
      | true =>
          rw [if_pos rfl]
          cases hmalloc' : env.answerMalloc.1 && env.answerMalloc.2 with
          | false =>
              rw [nlmsgAllocReserve_failed hmalloc']
              refine .gaveUp _ _ _ _ (by decide) rfl fun n => ?_
              simp [released, World.freed, World.allocated]
          | true =>
              obtain ⟨hfirst', hsecond'⟩ := (Bool.and_eq_true _ _).mp hmalloc'
              rw [hfirst', hsecond', nlmsgAllocReserve_eq (by decide)]
              have hgood : HoldsAnswer (some (ofParts (16 + nlmsgAlign goodSize) 0 0
                  (List.replicate (nlmsgAlign goodSize) 0) (16 + nlmsgAlign goodSize))) := by
                intro answer hanswer
                cases hanswer
                rw [ofParts_nlmsgLen _ _ _ _ _ (by decide), length_ofParts, List.length_replicate]
                decide
              exact transact_leaves hfill isDraft_new hgood rfl rfl rfl

/-- Every function that is a request ends in one of these ways. -/
theorem request_ends {env : Env} {fill : Nlmsg → Option (Int × Nlmsg)}
    {Sends : List Byte → Prop} {named : Bool}
    (hfill : named = true → FillsOrRejects fill Sends) (ownAnswer : Bool) (w : World) :
    Ends env w Sends (request env named ownAnswer fill w) := by
  have hopened := netlinkOpen_opened env.toKernel
  unfold request
  dsimp only
  rw [hopened]
  by_cases herr : (netlinkOpen env.toKernel).1 ≠ 0
  · rw [if_pos herr]
    have hends : Ends env w Sends _ := .notOpened herr
    cases hsocket : env.socket with
    | none =>
        rw [hsocket, if_pos rfl] at hends
        exact hends
    | some errno =>
        rw [hsocket, if_neg (Option.some_ne_none errno)] at hends
        exact hends
  · have hzero := Decidable.not_not.mp herr
    have hsocket : env.socket = none := by
      by_contra hsome
      exact netlinkOpen_failed hsome hzero
    rw [if_neg herr, hsocket]
    dsimp only [Option.isNone]
    rw [if_pos rfl]
    cases named with
    | false => exact .notSent (-EINVAL) hzero (by decide)
    | true =>
        have hleaves : Leaves env _ _ _ := attempt_leaves (hfill rfl) ownAnswer
          { w with sockets := w.sockets + 1 }
        rw [if_pos rfl]
        generalize attempt env ownAnswer fill { w with sockets := w.sockets + 1 } = left at hleaves
        cases hleaves with
        | gaveUp err nlmsg answer w' herr hsockets hfreed =>
            have hworld : released w' (w'.sockets - 1) nlmsg answer = w := by
              rw [hfreed, hsockets]
              rfl
            have hends : Ends env w Sends
                (.ok (err, released w' (w'.sockets - 1) nlmsg answer)) := by
              rw [hworld]
              exact .notSent err hzero herr
            exact hends
        | sent ret nlmsg answer w' bytes hbytes hsockets hfreed hverdict =>
            have hworld : released w' (w'.sockets - 1) nlmsg answer =
                { w with sent := w.sent ++ [bytes] } := by
              rw [hfreed, hsockets]
              rfl
            have hends : Ends env w Sends
                (.ok (ret, released w' (w'.sockets - 1) nlmsg answer)) := by
              rw [hworld]
              exact .sent ret bytes hzero hbytes hverdict
            exact hends
        | waiting interrupts hrecv => exact .waiting interrupts hrecv

end CsInternal.ToyDocker.LinkRequests
