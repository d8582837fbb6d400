import CsInternal.ToyDocker.LinkRequests

/-!
# What the kernel is asked to do

The other side of the requests: a message is read by its type, the structure at its
front and the attributes behind it.  Whatever a function of `network.c` hands over is
read as what its arguments say.
-/

namespace CsInternal.ToyDocker.LinkMeanings

open CsInternal.Library.Attributes
open CsInternal.ToyDocker.NetlinkMessage
open CsInternal.ToyDocker.NetlinkTransaction
open CsInternal.ToyDocker.LinkRequests

inductive Meaning where
  /-- change the flags of an interface that are set in `change` -/
  | setFlags (index flags change : Nat)
  | createVeth (name peer : List Byte)
  /-- move an interface to the namespace of a process, under a new name if there is one -/
  | move (index pid : Nat) (name : Option (List Byte))
  | delete (index : Nat)
  | addAddress (family prefixlen index : Nat) (address peer broadcast : List Byte)
  /-- a route with a gateway or with a destination -/
  | addRoute (family scope index : Nat) (gateway : Option (List Byte))
      (destination : Option (Nat × List Byte))
  deriving DecidableEq, Repr

def number (bytes : List Byte) (offset n : Nat) : Nat := fromLE (load bytes offset n)

/-- The payload of the first attribute of a type. -/
def lookup (attrs : List Attr) (type : BitVec 32) : Option (List Byte) :=
  (attrs.find? fun attr => attr.type = type.toNat).map Attr.payload

/-- A name ends at its first zero. -/
def readName (payload : List Byte) : List Byte := payload.takeWhile (· ≠ 0)

/-- `IFLA_LINKINFO` of a pair of interfaces, with the name of the peer. -/
def readVeth (info : List Byte) : Option (List Byte) := do
  let attrs ← parse info
  let kind ← lookup attrs IFLA_INFO_KIND
  if readName kind ≠ veth.bytes then none
  else
    let data ← parse (← lookup attrs IFLA_INFO_DATA)
    let peer ← parse ((← lookup data VETH_INFO_PEER).drop 16)
    (lookup peer IFLA_IFNAME).map readName

def readNewLink (flags : Nat) (body : List Byte) : Option Meaning := do
  let attrs ← parse (body.drop 16)
  if flags &&& NLM_F_CREATE ≠ 0 then
    let name ← lookup attrs IFLA_IFNAME
    let peer ← readVeth (← lookup attrs IFLA_LINKINFO)
    some (.createVeth (readName name) peer)
  else
    match lookup attrs IFLA_NET_NS_PID with
    | some pid =>
        some (.move (number body 4 4) (fromLE pid) ((lookup attrs IFLA_IFNAME).map readName))
    | none => some (.setFlags (number body 4 4) (number body 8 4) (number body 12 4))

def readNewAddr (body : List Byte) : Option Meaning := do
  let attrs ← parse (body.drop 8)
  some (.addAddress (number body 0 1) (number body 1 1) (number body 4 4)
    (← lookup attrs IFA_LOCAL) (← lookup attrs IFA_ADDRESS) (← lookup attrs IFA_BROADCAST))

def readNewRoute (body : List Byte) : Option Meaning := do
  let attrs ← parse (body.drop 12)
  if number body 4 1 ≠ RT_TABLE_MAIN then none
  else
    some (.addRoute (number body 0 1) (number body 6 1) (fromLE (← lookup attrs RTA_OIF))
      (lookup attrs RTA_GATEWAY) ((lookup attrs RTA_DST).map fun dst => (number body 1 1, dst)))

def meaningOf (type flags : Nat) (body : List Byte) : Option Meaning :=
  if type = RTM_NEWLINK then readNewLink flags body
  else if type = RTM_DELLINK then some (.delete (number body 4 4))
  else if type = RTM_NEWADDR then readNewAddr body
  else if type = RTM_NEWROUTE then readNewRoute body
  else none

/-- A message is a request, asks for an answer and counts its own bytes. -/
def decode (bytes : List Byte) : Option Meaning :=
  let flags := number bytes 6 2
  if number bytes 0 4 ≠ bytes.length ∨ flags &&& NLM_F_REQUEST = 0 ∨ flags &&& NLM_F_ACK = 0 then
    none
  else meaningOf (number bytes 4 2) flags (bytes.drop 16)

theorem length_messageBytes (type flags : Nat) (body : List Byte) :
    (messageBytes type flags body).length = 16 + body.length := by
  simp only [messageBytes, List.length_append, length_toLE, List.length_replicate]
  omega

theorem decode_messageBytes {type flags : Nat} {body : List Byte} (htype : type < 2 ^ 16)
    (hflags : flags < 2 ^ 16) (hbody : 16 + body.length < 2 ^ 32)
    (hrequest : flags &&& NLM_F_REQUEST ≠ 0) (hack : flags &&& NLM_F_ACK ≠ 0) :
    decode (messageBytes type flags body) = meaningOf type flags body := by
  have hlen : number (messageBytes type flags body) 0 4 = 16 + body.length := by
    have hload : load (messageBytes type flags body) 0 4 = toLE 4 (16 + body.length) := by
      rw [messageBytes, ← List.nil_append (toLE 4 _ ++ _)]
      exact load_append _ rfl (length_toLE _ _)
    rw [number, hload, fromLE_toLE_of_lt hbody]
  have hreadType : number (messageBytes type flags body) 4 2 = type := by
    have hload : load (messageBytes type flags body) 4 2 = toLE 2 type :=
      load_append _ (length_toLE _ _) (length_toLE _ _)
    rw [number, hload, fromLE_toLE_of_lt htype]
  have hreadFlags : number (messageBytes type flags body) 6 2 = flags := by
    have hload : load (messageBytes type flags body) 6 2 = toLE 2 flags := by
      rw [messageBytes, ← List.append_assoc]
      exact load_append _ (by rw [List.length_append, length_toLE, length_toLE]) (length_toLE _ _)
    rw [number, hload, fromLE_toLE_of_lt hflags]
  have hdrop : (messageBytes type flags body).drop 16 = body := by
    rw [messageBytes, ← List.append_assoc, ← List.append_assoc, ← List.append_assoc]
    refine List.drop_left' ?_
    simp only [List.length_append, length_toLE, List.length_replicate]
  rw [decode, hreadFlags, hlen, length_messageBytes, hreadType, hdrop, if_neg]
  rintro (hne | hzero | hzero)
  · exact hne rfl
  · exact hrequest hzero
  · exact hack hzero

theorem readName_eq (name : CString) : readName (name.bytes ++ [0]) = name.bytes := by
  have hall : ∀ b ∈ name.bytes, decide (b ≠ 0) = true := by
    intro b hb
    refine decide_eq_true ?_
    rintro rfl
    exact name.noNul hb
  rw [readName, List.takeWhile_append_of_pos hall]
  exact List.append_nil _

theorem number_toLE {bytes : List Byte} {offset k n : Nat} (hload : load bytes offset k = toLE k n)
    (hn : n < 256 ^ k) : number bytes offset k = n := by
  rw [number, hload, fromLE_toLE_of_lt hn]

section

variable {front : List Byte} (items : List Item)

theorem bytesList_data (hfront : front.length % 4 = 0) :
    Item.bytesList (.data front :: items) = front ++ Item.bytesList items := by
  rw [Item.bytesList, Item.bytes, pad_of_dvd hfront]

theorem number_front (hfront : front.length % 4 = 0) (offset n : Nat)
    (hfit : offset + n ≤ front.length) :
    number (Item.bytesList (.data front :: items)) offset n = number front offset n := by
  rw [bytesList_data items hfront, number, number, load, load,
    List.drop_append_of_le_length (by omega),
    List.take_append_of_le_length (by rw [List.length_drop]; omega)]

end

/-- The attributes are read as they were put, where they are short enough. -/
theorem parse_items {items : List Item} (attrs : List Attr)
    (hattrs : items.map Item.toAttr = attrs.map some)
    (htypes : (attrs.all fun attr => attr.type < 2 ^ 16) = true)
    (hlength : (Item.bytesList items).length < 2 ^ 16) :
    parse (Item.bytesList items) = some attrs := by
  refine Item.parse_bytesList hattrs (Item.fits_of_bytesList hattrs (fun attr hattr => ?_) hlength)
  exact of_decide_eq_true (List.all_eq_true.mp htypes attr hattr)

theorem parse_behind {front : List Byte} {items : List Item} (hfront : front.length % 4 = 0)
    (attrs : List Attr) (hattrs : items.map Item.toAttr = attrs.map some)
    (htypes : (attrs.all fun attr => attr.type < 2 ^ 16) = true)
    (hlength : (Item.bytesList items).length < 2 ^ 16) :
    parse ((Item.bytesList (.data front :: items)).drop front.length) = some attrs := by
  rw [bytesList_data items hfront, List.drop_left, parse_items attrs hattrs htypes hlength]

theorem length_nameItem (name : CString) :
    (nameItem name).bytes.length = align4 (5 + name.bytes.length) := by
  rw [nameItem, Item.bytes]
  exact length_nameAttr name

theorem length_wordItem (type : Nat) {word : List Byte} (hword : word.length = 4) :
    (Item.attr type word).bytes.length = 8 := by
  rw [Item.bytes, length_wordAttr type hword]

section

variable (index flags change : BitVec 32)

theorem number_index : number (ifinfomsg index flags change) 4 4 = index.toNat :=
  number_toLE rfl index.isLt

theorem number_flags : number (ifinfomsg index flags change) 8 4 = flags.toNat :=
  number_toLE rfl flags.isLt

theorem number_change : number (ifinfomsg index flags change) 12 4 = change.toNat :=
  number_toLE rfl change.isLt

theorem setFlags_meaning :
    decode (messageBytes RTM_NEWLINK (NLM_F_REQUEST ||| NLM_F_ACK)
      (ifinfomsg index flags change)) =
        some (.setFlags index.toNat flags.toNat change.toNat) := by
  have hbehind : (ifinfomsg index flags change).drop 16 = [] := rfl
  have hparse : parse [] = some [] := by rw [parse.eq_def, if_pos rfl]
  have hcreate : ¬ (NLM_F_REQUEST ||| NLM_F_ACK) &&& NLM_F_CREATE ≠ 0 := by decide
  rw [decode_messageBytes (by decide) (by decide) (by rw [length_ifinfomsg]; decide) (by decide)
    (by decide), meaningOf, if_pos rfl, readNewLink, hbehind, hparse, Option.bind_eq_bind,
    Option.bind_some, if_neg hcreate, number_index, number_flags, number_change]
  rfl

theorem delete_meaning :
    decode (messageBytes RTM_DELLINK (NLM_F_ACK ||| NLM_F_REQUEST)
      (ifinfomsg index flags change)) = some (.delete index.toNat) := by
  rw [decode_messageBytes (by decide) (by decide) (by rw [length_ifinfomsg]; decide) (by decide)
    (by decide), meaningOf, if_neg (by decide), if_pos rfl, number_index]

end

theorem move_meaning (ifindex pid : BitVec 32) {ifname : Option CString}
    (hfits : NameFits ifname) :
    decode (messageBytes RTM_NEWLINK (NLM_F_REQUEST ||| NLM_F_ACK)
      (Item.bytesList (.data (ifinfomsg ifindex 0 0) ::
        .attr IFLA_NET_NS_PID.toNat (toLE 4 pid.toNat) :: (ifname.map nameItem).toList))) =
      some (.move ifindex.toNat pid.toNat (ifname.map CString.bytes)) := by
  have hfront : (ifinfomsg ifindex 0 0).length % 4 = 0 := by rw [length_ifinfomsg]
  have hpid : fromLE (toLE 4 pid.toNat) = pid.toNat := fromLE_toLE_of_lt pid.isLt
  have hcreate : ¬ (NLM_F_REQUEST ||| NLM_F_ACK) &&& NLM_F_CREATE ≠ 0 := by decide
  have hlength : (Item.bytesList (.attr IFLA_NET_NS_PID.toNat (toLE 4 pid.toNat) ::
      (ifname.map nameItem).toList)).length ≤ 8176 := by
    rw [Item.bytesList, List.length_append, length_wordItem _ (length_toLE 4 _)]
    cases ifname with
    | none => decide
    | some name =>
        have hname := hfits name rfl
        rw [Option.map_some, Option.toList_some, Item.bytesList, Item.bytesList, List.append_nil,
          length_nameItem, align4]
        omega
  have hparse := parse_behind hfront
    (⟨IFLA_NET_NS_PID.toNat, toLE 4 pid.toNat⟩ :: (ifname.map nameAttr).toList)
    (by cases ifname <;> rfl) (by cases ifname <;> rfl) (Nat.lt_of_le_of_lt hlength (by decide))
  rw [length_ifinfomsg] at hparse
  have hbound : 16 + (Item.bytesList (.data (ifinfomsg ifindex 0 0) ::
      .attr IFLA_NET_NS_PID.toNat (toLE 4 pid.toNat) ::
        (ifname.map nameItem).toList)).length < 2 ^ 32 := by
    rw [bytesList_data _ hfront, List.length_append, length_ifinfomsg]
    omega
  have hlookup : lookup (⟨IFLA_NET_NS_PID.toNat, toLE 4 pid.toNat⟩ ::
      (ifname.map nameAttr).toList) IFLA_NET_NS_PID = some (toLE 4 pid.toNat) := rfl
  have hname : (lookup (⟨IFLA_NET_NS_PID.toNat, toLE 4 pid.toNat⟩ ::
      (ifname.map nameAttr).toList) IFLA_IFNAME).map readName = ifname.map CString.bytes := by
    cases ifname with
    | none => rfl
    | some name => exact congrArg some (readName_eq name)
  rw [decode_messageBytes (by decide) (by decide) hbound (by decide) (by decide), meaningOf,
    if_pos rfl, readNewLink, hparse, Option.bind_eq_bind, Option.bind_some, if_neg hcreate,
    number_front _ hfront 4 4 (by rw [length_ifinfomsg]; decide), number_index, hlookup]
  dsimp only
  rw [hpid, hname]

section

variable {peer : CString} (hpeer : peer.bytes.length < 16)

include hpeer

theorem length_peerItems : (Item.bytesList (peerItems peer)).length ≤ 36 := by
  rw [peerItems, bytesList_data _ (by rw [List.length_replicate]), Item.bytesList, Item.bytesList,
    List.append_nil, List.length_append, length_nameItem, List.length_replicate, align4]
  omega

theorem length_dataItems : (Item.bytesList (dataItems peer)).length ≤ 40 := by
  have hle := length_peerItems hpeer
  rw [dataItems, Item.bytesList, Item.bytesList, List.append_nil, Item.bytes, List.length_append,
    length_header]
  omega

theorem length_infoItems : (Item.bytesList (infoItems peer)).length ≤ 56 := by
  have hle := length_dataItems hpeer
  have hkind : (Item.attr IFLA_INFO_KIND.toNat (veth.bytes ++ [0])).bytes.length = 12 := by
    rw [Item.bytes, Attr.length_bytes]
    rfl
  rw [infoItems, Item.bytesList, Item.bytesList, Item.bytesList, List.append_nil,
    List.length_append, hkind, Item.bytes, List.length_append, length_header]
  omega

/-- The nested attributes lead to the name of the peer. -/
theorem readVeth_infoItems :
    readVeth (Item.bytesList (infoItems peer)) = some peer.bytes := by
  have hzeros : (List.replicate 16 (0 : Byte)).length % 4 = 0 := by rw [List.length_replicate]
  have hname : (Item.bytesList [nameItem peer]).length < 2 ^ 16 := by
    rw [Item.bytesList, Item.bytesList, List.append_nil, length_nameItem, align4]
    omega
  have hinfo := parse_items [⟨IFLA_INFO_KIND.toNat, veth.bytes ++ [0]⟩,
    ⟨IFLA_INFO_DATA.toNat, Item.bytesList (dataItems peer)⟩] rfl rfl
    (Nat.lt_of_le_of_lt (length_infoItems hpeer) (by decide))
  have hdata := parse_items [⟨VETH_INFO_PEER.toNat, Item.bytesList (peerItems peer)⟩] rfl rfl
    (Nat.lt_of_le_of_lt (length_dataItems hpeer) (by decide))
  have hpeer := parse_behind hzeros [nameAttr peer] rfl rfl hname
  rw [List.length_replicate] at hpeer
  have hkind : lookup [⟨IFLA_INFO_KIND.toNat, veth.bytes ++ [0]⟩,
    ⟨IFLA_INFO_DATA.toNat, Item.bytesList (dataItems peer)⟩] IFLA_INFO_KIND =
      some (veth.bytes ++ [0]) := rfl
  have hlookup : lookup [⟨IFLA_INFO_KIND.toNat, veth.bytes ++ [0]⟩,
    ⟨IFLA_INFO_DATA.toNat, Item.bytesList (dataItems peer)⟩] IFLA_INFO_DATA =
      some (Item.bytesList (dataItems peer)) := rfl
  rw [readVeth, hinfo, Option.bind_eq_bind, Option.bind_some, hkind, Option.bind_eq_bind,
    Option.bind_some, readName_eq, if_neg (fun hne => hne rfl), hlookup, Option.bind_some,
    hdata, Option.bind_some]
  have hpeerLookup : lookup [⟨VETH_INFO_PEER.toNat, Item.bytesList (peerItems peer)⟩]
    VETH_INFO_PEER = some (Item.bytesList (peerItems peer)) := rfl
  have hpeerName : lookup [nameAttr peer] IFLA_IFNAME = some (peer.bytes ++ [0]) := rfl
  rw [hpeerLookup, Option.bind_some, peerItems, hpeer, Option.bind_some, hpeerName,
    Option.map_some, readName_eq]

end

theorem createVeth_meaning {name1 name2 : CString} (hshort1 : name1.bytes.length < 16)
    (hshort2 : name2.bytes.length < 16) :
    decode (messageBytes RTM_NEWLINK (NLM_F_REQUEST ||| NLM_F_CREATE ||| NLM_F_EXCL ||| NLM_F_ACK)
      (Item.bytesList [.data (ifinfomsg 0 0 0), vethInfo name2, nameItem name1])) =
      some (.createVeth name1.bytes name2.bytes) := by
  have hfront : (ifinfomsg 0 0 0).length % 4 = 0 := by rw [length_ifinfomsg]
  have hcreate : (NLM_F_REQUEST ||| NLM_F_CREATE ||| NLM_F_EXCL ||| NLM_F_ACK) &&&
    NLM_F_CREATE ≠ 0 := by decide
  have hinfo := length_infoItems hshort2
  have hlength : (Item.bytesList [vethInfo name2, nameItem name1]).length ≤ 80 := by
    rw [Item.bytesList, Item.bytesList, Item.bytesList, List.append_nil, List.length_append,
      length_nameItem, vethInfo, Item.bytes, List.length_append, length_header, align4]
    omega
  have hbound : 16 + (Item.bytesList [.data (ifinfomsg 0 0 0), vethInfo name2,
      nameItem name1]).length < 2 ^ 32 := by
    rw [bytesList_data _ hfront, List.length_append, length_ifinfomsg]
    omega
  have hparse := parse_behind hfront
    [⟨IFLA_LINKINFO.toNat, Item.bytesList (infoItems name2)⟩, nameAttr name1] rfl rfl
    (Nat.lt_of_le_of_lt hlength (by decide))
  rw [length_ifinfomsg] at hparse
  have hname : lookup [⟨IFLA_LINKINFO.toNat, Item.bytesList (infoItems name2)⟩, nameAttr name1]
    IFLA_IFNAME = some (name1.bytes ++ [0]) := rfl
  have hlookup : lookup [⟨IFLA_LINKINFO.toNat, Item.bytesList (infoItems name2)⟩, nameAttr name1]
    IFLA_LINKINFO = some (Item.bytesList (infoItems name2)) := rfl
  rw [decode_messageBytes (by decide) (by decide) hbound (by decide) (by decide), meaningOf,
    if_pos rfl, readNewLink, hparse, Option.bind_eq_bind, Option.bind_some, if_pos hcreate, hname,
    Option.bind_eq_bind, Option.bind_some, hlookup, Option.bind_some,
    readVeth_infoItems hshort2, Option.bind_some, readName_eq]

theorem addAddress_meaning (ifindex prefixlen : BitVec 32) {addr bcast : List Byte}
    (haddr : addr.length = 4) (hbcast : bcast.length = 4) :
    decode (messageBytes RTM_NEWADDR (NLM_F_ACK ||| NLM_F_REQUEST ||| NLM_F_CREATE ||| NLM_F_EXCL)
      (Item.bytesList [.data (ifaddrmsg AF_INET prefixlen ifindex), .attr IFA_LOCAL.toNat addr,
        .attr IFA_ADDRESS.toNat addr, .attr IFA_BROADCAST.toNat bcast])) =
      some (.addAddress AF_INET (prefixlen.toNat % 256) ifindex.toNat addr addr bcast) := by
  have hfront : (ifaddrmsg AF_INET prefixlen ifindex).length % 4 = 0 := by rw [length_ifaddrmsg]
  have hlength : (Item.bytesList [.attr IFA_LOCAL.toNat addr, .attr IFA_ADDRESS.toNat addr,
      .attr IFA_BROADCAST.toNat bcast]).length = 24 := by
    rw [Item.bytesList, Item.bytesList, Item.bytesList, Item.bytesList, List.append_nil,
      List.length_append, List.length_append, length_wordItem _ haddr, length_wordItem _ haddr,
      length_wordItem _ hbcast]
  have hbound : 16 + (Item.bytesList [.data (ifaddrmsg AF_INET prefixlen ifindex),
      .attr IFA_LOCAL.toNat addr, .attr IFA_ADDRESS.toNat addr,
      .attr IFA_BROADCAST.toNat bcast]).length < 2 ^ 32 := by
    rw [bytesList_data _ hfront, List.length_append, length_ifaddrmsg, hlength]
    decide
  have hparse := parse_behind hfront
    [⟨IFA_LOCAL.toNat, addr⟩, ⟨IFA_ADDRESS.toNat, addr⟩, ⟨IFA_BROADCAST.toNat, bcast⟩] rfl rfl
    (by rw [hlength]; decide)
  rw [length_ifaddrmsg] at hparse
  have hlocal : lookup [⟨IFA_LOCAL.toNat, addr⟩, ⟨IFA_ADDRESS.toNat, addr⟩,
    ⟨IFA_BROADCAST.toNat, bcast⟩] IFA_LOCAL = some addr := rfl
  have hpeer : lookup [⟨IFA_LOCAL.toNat, addr⟩, ⟨IFA_ADDRESS.toNat, addr⟩,
    ⟨IFA_BROADCAST.toNat, bcast⟩] IFA_ADDRESS = some addr := rfl
  have hbroadcast : lookup [⟨IFA_LOCAL.toNat, addr⟩, ⟨IFA_ADDRESS.toNat, addr⟩,
    ⟨IFA_BROADCAST.toNat, bcast⟩] IFA_BROADCAST = some bcast := rfl
  have hfamily : number (ifaddrmsg AF_INET prefixlen ifindex) 0 1 = AF_INET :=
    number_toLE rfl (by decide)
  have hbits : number (ifaddrmsg AF_INET prefixlen ifindex) 1 1 = prefixlen.toNat % 256 := by
    have hload : load (ifaddrmsg AF_INET prefixlen ifindex) 1 1 = toLE 1 prefixlen.toNat := rfl
    rw [number, hload, fromLE_toLE, Nat.pow_one]
  have hindex : number (ifaddrmsg AF_INET prefixlen ifindex) 4 4 = ifindex.toNat :=
    number_toLE rfl ifindex.isLt
  rw [decode_messageBytes (by decide) (by decide) hbound (by decide) (by decide), meaningOf,
    if_neg (by decide), if_neg (by decide), if_pos rfl, readNewAddr, hparse, Option.bind_eq_bind,
    Option.bind_some, hlocal, hpeer, hbroadcast,
    number_front _ hfront 0 1 (by rw [length_ifaddrmsg]; decide),
    number_front _ hfront 1 1 (by rw [length_ifaddrmsg]; decide),
    number_front _ hfront 4 4 (Nat.le_of_eq (length_ifaddrmsg _ _ _).symm), hfamily, hbits,
    hindex]
  rfl

/-- What the two functions that add a route have in common. -/
theorem route_meaning (ifindex : BitVec 32) {addr : List Byte} (haddr : addr.length = 4)
    {dstLen scope : Nat} {attr : BitVec 32} (hdstLen : dstLen < 256) (hscope : scope < 256)
    (hattr : attr.toNat < 2 ^ 16) (hoif : attr.toNat ≠ RTA_OIF.toNat) :
    decode (messageBytes RTM_NEWROUTE
      (NLM_F_ACK ||| NLM_F_REQUEST ||| NLM_F_CREATE ||| NLM_F_EXCL)
      (Item.bytesList [.data (rtmsg AF_INET dstLen scope), .attr attr.toNat addr,
        .attr RTA_OIF.toNat (toLE 4 ifindex.toNat)])) =
      some (.addRoute AF_INET scope ifindex.toNat
        (lookup [⟨attr.toNat, addr⟩, ⟨RTA_OIF.toNat, toLE 4 ifindex.toNat⟩] RTA_GATEWAY)
        ((lookup [⟨attr.toNat, addr⟩, ⟨RTA_OIF.toNat, toLE 4 ifindex.toNat⟩] RTA_DST).map
          fun dst => (dstLen, dst))) := by
  have hfront : (rtmsg AF_INET dstLen scope).length % 4 = 0 := by rw [length_rtmsg]
  have hlength : (Item.bytesList [.attr attr.toNat addr,
      .attr RTA_OIF.toNat (toLE 4 ifindex.toNat)]).length = 16 := by
    rw [Item.bytesList, Item.bytesList, Item.bytesList, List.append_nil, List.length_append,
      length_wordItem _ haddr, length_wordItem _ (length_toLE 4 _)]
  have hbound : 16 + (Item.bytesList [.data (rtmsg AF_INET dstLen scope),
      .attr attr.toNat addr, .attr RTA_OIF.toNat (toLE 4 ifindex.toNat)]).length < 2 ^ 32 := by
    rw [bytesList_data _ hfront, List.length_append, length_rtmsg, hlength]
    decide
  have hparse := parse_behind hfront
    [⟨attr.toNat, addr⟩, ⟨RTA_OIF.toNat, toLE 4 ifindex.toNat⟩] rfl
    (by
      rw [List.all_cons, decide_eq_true hattr]
      rfl)
    (by rw [hlength]; decide)
  rw [length_rtmsg] at hparse
  have hnumber := fun offset n (hfit : offset + n ≤ 12) =>
    number_front [.attr attr.toNat addr, .attr RTA_OIF.toNat (toLE 4 ifindex.toNat)] hfront
      offset n (by rw [length_rtmsg]; exact hfit)
  have hlookup : lookup [⟨attr.toNat, addr⟩, ⟨RTA_OIF.toNat, toLE 4 ifindex.toNat⟩] RTA_OIF =
      some (toLE 4 ifindex.toNat) := by
    rw [lookup, List.find?_cons_of_neg (by simpa using hoif)]
    rfl
  have hfamily : number (rtmsg AF_INET dstLen scope) 0 1 = AF_INET :=
    number_toLE rfl (by decide)
  have htable : number (rtmsg AF_INET dstLen scope) 4 1 = RT_TABLE_MAIN :=
    number_toLE rfl (by decide)
  have hscope' : number (rtmsg AF_INET dstLen scope) 6 1 = scope := number_toLE rfl hscope
  have hdst : number (rtmsg AF_INET dstLen scope) 1 1 = dstLen := number_toLE rfl hdstLen
  have hindex : fromLE (toLE 4 ifindex.toNat) = ifindex.toNat := fromLE_toLE_of_lt ifindex.isLt
  rw [decode_messageBytes (by decide) (by decide) hbound (by decide) (by decide), meaningOf,
    if_neg (by decide), if_neg (by decide), if_neg (by decide), if_pos rfl, readNewRoute, hparse,
    Option.bind_eq_bind, Option.bind_some, hnumber 4 1 (by decide), htable,
    if_neg (fun hne => hne rfl), hlookup, hnumber 0 1 (by decide), hnumber 6 1 (by decide),
    hnumber 1 1 (by decide), hfamily, hscope', hdst, Option.bind_eq_bind, Option.bind_some, hindex]

/-! ## The calls -/

/-- A call of a function of `network.c`. -/
inductive Call where
  | netdevUp (name : CString)
  | netdevDown (name : CString)
  | vethCreate (name1 name2 : CString)
  | moveByIndex (ifindex pid : BitVec 32) (ifname : Option CString)
  | moveByName (ifname : Option CString) (pid : BitVec 32) (newname : Option CString)
  | ipv4AddrAdd (ifindex : BitVec 32) (addr bcast : InAddr) (prefixlen : BitVec 32)
  | ipv4GatewayAdd (ifindex : BitVec 32) (gw : InAddr)
  | ipv4DestAdd (ifindex : BitVec 32) (dest : InAddr)
  | deleteByIndex (ifindex : BitVec 32)
  | deleteByName (name : CString)

namespace Call

def run (env : Env) : Call → World → Except Stuck (Int × World)
  | netdevUp name => lxcNetdevUp env name
  | netdevDown name => lxcNetdevDown env name
  | vethCreate name1 name2 => lxcVethCreate env name1 name2
  | moveByIndex ifindex pid ifname => lxcNetdevMoveByIndex env ifindex pid ifname
  | moveByName ifname pid newname => lxcNetdevMoveByName env ifname pid newname
  | ipv4AddrAdd ifindex addr bcast prefixlen => lxcIpv4AddrAdd env ifindex addr bcast prefixlen
  | ipv4GatewayAdd ifindex gw => lxcIpv4GatewayAdd env ifindex gw
  | ipv4DestAdd ifindex dest => lxcIpv4DestAdd env ifindex dest
  | deleteByIndex ifindex => lxcNetdevDeleteByIndex env ifindex
  | deleteByName name => lxcNetdevDeleteByName env name

/-- The index of the interface that a call names. -/
def index (env : Env) (name : CString) : Nat := (env.ifNametoindex name).toNat

/-- What the caller wants. -/
def meaning (env : Env) : Call → Option Meaning
  | netdevUp name => some (.setFlags (index env name) 1 1)
  | netdevDown name => some (.setFlags (index env name) 0 1)
  | vethCreate name1 name2 => some (.createVeth name1.bytes name2.bytes)
  | moveByIndex ifindex pid ifname =>
      some (.move ifindex.toNat pid.toNat (ifname.map CString.bytes))
  | moveByName ifname pid newname => ifname.map fun name =>
      .move (index env name) pid.toNat (newname.map CString.bytes)
  | ipv4AddrAdd ifindex addr bcast prefixlen =>
      some (.addAddress AF_INET prefixlen.toNat ifindex.toNat addr.1 addr.1 bcast.1)
  | ipv4GatewayAdd ifindex gw =>
      some (.addRoute AF_INET RT_SCOPE_UNIVERSE ifindex.toNat (some gw.1) none)
  | ipv4DestAdd ifindex dest =>
      some (.addRoute AF_INET RT_SCOPE_LINK ifindex.toNat none (some (32, dest.1)))
  | deleteByIndex ifindex => some (.delete ifindex.toNat)
  | deleteByName name => some (.delete (index env name))

/-- The call comes to `netlink_open`. -/
def Opens (env : Env) : Call → Prop
  | moveByName ifname _ _ => ∃ name ∈ ifname, env.ifNametoindex name ≠ 0
  | deleteByName name => env.ifNametoindex name ≠ 0
  | _ => True

/-- The names that go into the message are short enough for their lengths not to wrap
around in `nla_put`. -/
def NamesBounded : Call → Prop
  | vethCreate name1 name2 => NameBounded name1 ∧ NameBounded name2
  | moveByIndex _ _ newname => ∀ name ∈ newname, NameBounded name
  | moveByName _ _ newname => ∀ name ∈ newname, NameBounded name
  | _ => True

/-- The length of a prefix fits into the eight bits of `ifa_prefixlen`. -/
def PrefixFits : Call → Prop
  | ipv4AddrAdd _ _ _ prefixlen => prefixlen.toNat < 256
  | _ => True

end Call

theorem netdevSetFlag_ends (env : Env) (name : CString) (flag : BitVec 32) (w : World) :
    Ends env w (fun bytes => decode bytes =
        some (.setFlags (env.ifNametoindex name).toNat flag.toNat 1))
      (netdevSetFlag env name flag w) := by
  refine request_ends (fun _ => ?_) true w
  by_cases hindex : env.ifNametoindex name = 0
  · rw [hindex]
    exact .rejects _ (netdevSetFlag_rejects flag)
  · exact .fills _ _ _ (by rw [length_ifinfomsg]; decide) (netdevSetFlag_fill flag hindex)
      (setFlags_meaning _ flag IFF_UP)

theorem moveByIndex_ends (env : Env) (ifindex pid : BitVec 32) {ifname : Option CString}
    (hbound : ∀ name ∈ ifname, NameBounded name) (w : World) :
    Ends env w (fun bytes => decode bytes =
        some (.move ifindex.toNat pid.toNat (ifname.map CString.bytes)))
      (lxcNetdevMoveByIndex env ifindex pid ifname w) := by
  refine request_ends (fun _ => ?_) false w
  by_cases hfits : NameFits ifname
  · refine .fills _ _ _ ?_ (lxcNetdevMoveByIndex_fill ifindex pid hfits)
      (move_meaning ifindex pid hfits)
    rw [bytesList_data _ (by rw [length_ifinfomsg]), List.length_append, length_ifinfomsg]
    omega
  · cases ifname with
    | none => exact absurd (fun name hname => by cases hname) hfits
    | some name =>
        have hlong : 8163 < name.bytes.length := by
          by_contra hle
          refine hfits fun other hother => ?_
          cases hother
          omega
        exact .rejects _ (lxcNetdevMoveByIndex_rejects ifindex pid hlong (hbound name rfl))

theorem vethCreate_ends (env : Env) {name1 name2 : CString} (hbound1 : NameBounded name1)
    (hbound2 : NameBounded name2) (w : World) :
    Ends env w (fun bytes => decode bytes = some (.createVeth name1.bytes name2.bytes))
      (lxcVethCreate env name1 name2 w) := by
  refine request_ends (fun hnames => ?_) true w
  obtain ⟨hname1, hname2⟩ := (Bool.and_eq_true _ _).mp hnames
  have hlen1 := short_or_negative hname1 hbound1
  have hlen2 := short_or_negative hname2 hbound2
  by_cases hshort : name1.bytes.length < 16 ∧ name2.bytes.length < 16
  · refine .fills _ _ _ ?_ (lxcVethCreate_fill hshort.1 hshort.2)
      (createVeth_meaning hshort.1 hshort.2)
    rw [bytesList_data _ (by rw [length_ifinfomsg]), List.length_append, length_ifinfomsg]
    omega
  · exact .rejects _ (lxcVethCreate_rejects hbound1 hbound2 (by omega) (by omega))

theorem deleteByIndex_ends (env : Env) (ifindex : BitVec 32) (w : World) :
    Ends env w (fun bytes => decode bytes = some (.delete ifindex.toNat))
      (lxcNetdevDeleteByIndex env ifindex w) :=
  request_ends (fun _ => .fills _ _ _ (by rw [length_ifinfomsg]; decide)
    (lxcNetdevDeleteByIndex_fill ifindex) (delete_meaning ifindex 0 0)) true w

/-- Of the length of the prefix the message holds eight bits. -/
theorem addrAdd_ends (env : Env) (ifindex prefixlen : BitVec 32) (addr bcast : InAddr)
    (w : World) :
    Ends env w (fun bytes => decode bytes = some (.addAddress AF_INET (prefixlen.toNat % 256)
        ifindex.toNat addr.1 addr.1 bcast.1))
      (lxcIpv4AddrAdd env ifindex addr bcast prefixlen w) := by
  refine request_ends (fun _ => ?_) true w
  refine .fills _ _ _ ?_ (lxcIpv4AddrAdd_fill ifindex prefixlen addr.2 bcast.2)
    (addAddress_meaning ifindex prefixlen addr.2 bcast.2)
  rw [bytesList_data _ (by rw [length_ifaddrmsg]), List.length_append, length_ifaddrmsg]
  omega

/-- A message asks for what the call wants. -/
def Call.Asks (env : Env) (call : Call) (bytes : List Byte) : Prop :=
  call.PrefixFits → ∃ meaning, call.meaning env = some meaning ∧ decode bytes = some meaning

theorem ends_of_meaning {env : Env} {w : World} {call : Call} {meaning : Meaning}
    {result : Except Stuck (Int × World)} (hmeaning : call.meaning env = some meaning)
    (hends : Ends env w (fun bytes => decode bytes = some meaning) result) :
    Ends env w (call.Asks env) result :=
  hends.mono fun _ hbytes _ => ⟨meaning, hmeaning, hbytes⟩

/-- Where the interface has no index, a call returns at once. -/
theorem run_not_opens {env : Env} {call : Call} (hopens : ¬ call.Opens env) (w : World) :
    call.run env w = .ok (-EINVAL, w) := by
  cases call with
  | moveByName ifname pid newname =>
      cases ifname with
      | none => rfl
      | some ifname =>
          have hindex : env.ifNametoindex ifname = 0 := by
            by_contra hne
            exact hopens ⟨ifname, rfl, hne⟩
          rw [Call.run, lxcNetdevMoveByName]
          exact if_pos hindex
  | deleteByName name =>
      rw [Call.run, lxcNetdevDeleteByName]
      exact if_pos (Decidable.not_not.mp hopens)
  | _ => exact absurd trivial hopens

theorem call_ends {env : Env} {call : Call} (hopens : call.Opens env)
    (hbound : call.NamesBounded) (w : World) :
    Ends env w (call.Asks env) (call.run env w) := by
  cases call with
  | netdevUp name => exact ends_of_meaning rfl (netdevSetFlag_ends env name IFF_UP w)
  | netdevDown name => exact ends_of_meaning rfl (netdevSetFlag_ends env name 0 w)
  | vethCreate name1 name2 =>
      exact ends_of_meaning rfl (vethCreate_ends env hbound.1 hbound.2 w)
  | moveByIndex ifindex pid ifname =>
      exact ends_of_meaning rfl (moveByIndex_ends env ifindex pid hbound w)
  | moveByName ifname pid newname =>
      obtain ⟨name, rfl, hindex⟩ := hopens
      have hrun : Call.run env (.moveByName (some name) pid newname) w =
          lxcNetdevMoveByIndex env (env.ifNametoindex name) pid newname w := if_neg hindex
      rw [hrun]
      exact ends_of_meaning rfl (moveByIndex_ends env _ pid hbound w)
  | ipv4AddrAdd ifindex addr bcast prefixlen =>
      refine (addrAdd_ends env ifindex prefixlen addr bcast w).mono fun bytes hbytes hbits => ?_
      have hfits : prefixlen.toNat % 256 = prefixlen.toNat := Nat.mod_eq_of_lt hbits
      exact ⟨_, rfl, by rw [hbytes, hfits]⟩
  | ipv4GatewayAdd ifindex gw =>
      refine ends_of_meaning rfl (request_ends (fun _ => ?_) true w)
      refine .fills _ _ _ ?_ (route_fill _ _ _ ifindex gw.2)
        (route_meaning ifindex gw.2 (by decide) (by decide) (by decide) (by decide))
      rw [bytesList_data _ (by rw [length_rtmsg]), List.length_append, length_rtmsg]
      omega
  | ipv4DestAdd ifindex dest =>
      refine ends_of_meaning rfl (request_ends (fun _ => ?_) true w)
      refine .fills _ _ _ ?_ (route_fill _ _ _ ifindex dest.2)
        (route_meaning ifindex dest.2 (by decide) (by decide) (by decide) (by decide))
      rw [bytesList_data _ (by rw [length_rtmsg]), List.length_append, length_rtmsg]
      omega
  | deleteByIndex ifindex => exact ends_of_meaning rfl (deleteByIndex_ends env ifindex w)
  | deleteByName name =>
      have hrun : Call.run env (.deleteByName name) w =
          lxcNetdevDeleteByIndex env (env.ifNametoindex name) w := if_neg hopens
      rw [hrun]
      exact ends_of_meaning rfl (deleteByIndex_ends env _ w)

/-! A kernel that interrupts the first `recvmsg` and then accepts. -/

def exampleReply : Reply where
  type := 2
  flags := 0
  seq := 0
  pid := 0
  payload := List.replicate 20 0
  bound := by decide

def exampleEnv : Env where
  socket := none
  setSndbuf := none
  setRcvbuf := none
  bind := none
  getsockname := none
  socklenKept := true
  familyKept := true
  sendmsg := none
  recvmsg := [.failed EINTR, .datagram exampleReply.bytes]
  requestMalloc := (true, true)
  answerMalloc := (true, true)
  ifNametoindex := fun _ => 7

/-- The same kernel, but `bind` fails. -/
def unboundEnv : Env := { exampleEnv with bind := some EINTR }

def exampleName : CString := ⟨[0x65, 0x74, 0x68, 0x30], by decide⟩

def exampleMove : Call := .moveByIndex 7 4711 (some exampleName)

theorem exampleMove_bounded : exampleMove.NamesBounded := by
  intro name hname
  cases hname
  exact le_of_ble rfl

theorem example_run (call : Call) (hopens : call.Opens exampleEnv) (hbound : call.NamesBounded) :
    ∃ ret w', call.run exampleEnv ⟨0, 0, []⟩ = .ok (ret, w') := by
  have hends := call_ends hopens hbound ⟨0, 0, []⟩
  generalize call.run exampleEnv ⟨0, 0, []⟩ = result at hends
  cases hends with
  | notOpened herr => exact ⟨_, _, rfl⟩
  | notSent err hopened herr => exact ⟨_, _, rfl⟩
  | sent ret bytes hopened hbytes hverdict => exact ⟨_, _, rfl⟩
  | waiting interrupts hrecv =>
      have hmem : Received.datagram exampleReply.bytes ∈
          List.replicate interrupts (.failed EINTR) := by
        rw [← hrecv]
        exact .tail _ (.head _)
      cases List.eq_of_mem_replicate hmem

/-- `netlink_open` got a socket and failed with it. -/
def KeepsSocket (env : Env) : Prop := env.socket = none ∧ (netlinkOpen env.toKernel).1 ≠ 0

/-- Nothing that a call allocates outlives it, and exactly where `netlink_open` fails after
it had its socket, one descriptor does. -/
theorem call_releases {env : Env} {call : Call} (hbound : call.NamesBounded) {w w' : World}
    {ret : Int} (hrun : call.run env w = .ok (ret, w')) :
    w'.blocks = w.blocks ∧
      (call.Opens env ∧ KeepsSocket env → w'.sockets = w.sockets + 1 ∧
        ret = (netlinkOpen env.toKernel).1 ∧ ret ≠ 0 ∧ w'.sent = w.sent) ∧
      (¬ (call.Opens env ∧ KeepsSocket env) → w'.sockets = w.sockets) := by
  by_cases hopens : call.Opens env
  · have hends := call_ends hopens hbound w
    rw [hrun] at hends
    cases hends with
    | notOpened herr =>
        by_cases hsocket : env.socket = none
        · rw [if_pos hsocket]
          exact ⟨rfl, fun _ => ⟨rfl, rfl, herr, rfl⟩, fun hclosed =>
            absurd ⟨hopens, hsocket, herr⟩ hclosed⟩
        · rw [if_neg hsocket]
          exact ⟨rfl, fun hkeeps => absurd hkeeps.2.1 hsocket, fun _ => rfl⟩
    | notSent err hopened herr =>
        exact ⟨rfl, fun hkeeps => absurd hopened hkeeps.2.2, fun _ => rfl⟩
    | sent ret bytes hopened hbytes hverdict =>
        exact ⟨rfl, fun hkeeps => absurd hopened hkeeps.2.2, fun _ => rfl⟩
  · rw [run_not_opens hopens] at hrun
    cases hrun
    exact ⟨rfl, fun hkeeps => absurd hkeeps.1 hopens, fun _ => rfl⟩

/-- Once all is given back, once the descriptor stays open. -/
theorem call_releases_example :
    (∃ ret w', exampleMove.run exampleEnv ⟨0, 0, []⟩ = .ok (ret, w') ∧ w'.blocks = 0 ∧
      w'.sockets = 0) ∧
    ∃ ret w', exampleMove.run unboundEnv ⟨0, 0, []⟩ = .ok (ret, w') ∧ w'.blocks = 0 ∧
      w'.sockets = 1 ∧ ret = -4 ∧ w'.sent = [] := by
  constructor
  · obtain ⟨ret, w', hrun⟩ := example_run exampleMove trivial exampleMove_bounded
    obtain ⟨hblocks, -, hsockets⟩ := call_releases exampleMove_bounded hrun
    exact ⟨ret, w', hrun, hblocks, hsockets fun hkeeps => hkeeps.2.2 rfl⟩
  · have hrun : exampleMove.run unboundEnv ⟨0, 0, []⟩ = .ok (-4, ⟨1, 0, []⟩) := rfl
    obtain ⟨hblocks, hkept, -⟩ := call_releases exampleMove_bounded hrun
    obtain ⟨hsockets, -, -, hsent⟩ := hkept ⟨trivial, rfl, by decide⟩
    exact ⟨_, _, hrun, hblocks, hsockets, rfl, hsent⟩

/-- A call never leaves its blocks.  It hangs only while every `recvmsg` is
interrupted; where the kernel answers the message, the call returns what it says. -/
theorem call_returns (env : Env) {call : Call} (hbound : call.NamesBounded) (w : World) :
    (call.run env w = .error .waiting ∧
        ∃ interrupts, env.recvmsg = List.replicate interrupts (.failed EINTR)) ∨
      ∃ ret w', call.run env w = .ok (ret, w') ∧
        (w'.sent ≠ w.sent → ∀ reply, Answers env.toKernel reply → ret = reply.verdict) := by
  by_cases hopens : call.Opens env
  · have hends := call_ends hopens hbound w
    generalize call.run env w = result at hends
    cases hends with
    | notOpened herr =>
        refine .inr ⟨_, _, rfl, fun hsent => absurd ?_ hsent⟩
        split
        · rfl
        · rfl
    | notSent err hopened herr => exact .inr ⟨_, _, rfl, fun hsent => absurd rfl hsent⟩
    | sent ret bytes hopened hbytes hverdict => exact .inr ⟨_, _, rfl, fun _ => hverdict⟩
    | waiting interrupts hrecv => exact .inl ⟨rfl, interrupts, hrecv⟩
  · exact .inr ⟨_, _, run_not_opens hopens w, fun hsent => absurd rfl hsent⟩

theorem call_returns_example :
    ∃ ret w', exampleMove.run exampleEnv ⟨0, 0, []⟩ = .ok (ret, w') ∧
      (w'.sent ≠ [] → ret = 0) := by
  obtain ⟨ret, w', hrun⟩ := example_run exampleMove trivial exampleMove_bounded
  obtain ⟨hwaiting, -⟩ | ⟨ret', w'', hrun', hverdict⟩ :=
    call_returns exampleEnv exampleMove_bounded ⟨0, 0, []⟩
  · cases hrun.symm.trans hwaiting
  · have hanswers : Answers exampleEnv.toKernel exampleReply :=
      ⟨rfl, ⟨1, [], rfl⟩, fun _ => by decide⟩
    cases hrun.symm.trans hrun'
    exact ⟨ret, w', hrun, fun hsent => hverdict hsent exampleReply hanswers⟩

end CsInternal.ToyDocker.LinkMeanings
