import CsInternal.ToyDocker.NetlinkTransaction

/-!
# Hardware addresses in `network.c`

`lxc_convert_mac` reads an address from a string, up to six groups of one or two
hexadecimal digits with colons between them; what it accepts and what it stores is
stated as a grammar.  `new_hwaddr` prints an address that `setup_hw_addr` then reads.
-/

namespace CsInternal.ToyDocker.HardwareAddress

open CsInternal.ToyDocker.NetlinkMessage
open CsInternal.ToyDocker.NetlinkTransaction

abbrev Byte := BitVec 8

/-- `ETH_ALEN` -/
def ethAlen : Nat := 6

def colon : Byte := 0x3a

/-- `*p`: the bytes of the string and the zero behind them, and nothing after it. -/
def read (s : CString) (p : Nat) : Option Byte := (s.bytes ++ [0])[p]?

/-- The three ranges of characters that the function asks for, in its order. -/
def digit (c : Byte) : Option (BitVec 32) :=
  if 0x30 ≤ c.toNat ∧ c.toNat ≤ 0x39 then some (c.setWidth 32 - 0x30)
  else if 0x61 ≤ c.toNat ∧ c.toNat ≤ 0x66 then some (c.setWidth 32 - 0x61 + 10)
  else if 0x41 ≤ c.toNat ∧ c.toNat ≤ 0x46 then some (c.setWidth 32 - 0x41 + 10)
  else none

/-- The second character of a group: a digit is put below the first one, and a colon or
the end of the string undoes the shift. -/
def second (val : BitVec 32) (c : Byte) : Option (BitVec 32) :=
  match digit c with
  | some low => some (val ||| low)
  | none => if c = colon ∨ c = 0 then some (val >>> 4) else none

/-- The loop at `macaddr = p`, with `left` groups that it may still read. -/
def convertLoop (s : CString) : (left : Nat) → (p : Nat) → (data : List Byte) →
    Option (Int × List Byte)
  | 0, p, data => do
      let _ ← read s p
      some (0, data)
  | left + 1, p, data => do
      let c ← read s p
      if c = 0 then some (0, data)
      else
        match digit c with
        | none => some (-EINVAL, data)
        | some high => do
            let c ← read s (p + 1)
            match second (high <<< 4) c with
            | none => some (-EINVAL, data)
            | some val => do
                let p := if c ≠ 0 then p + 2 else p + 1
                let next ← read s p
                convertLoop s left (if next = colon then p + 1 else p)
                  (data ++ [(val &&& 0xff).setWidth 8])

/-- With the bytes that are stored into `sa_data`; the others stay as they were. -/
def lxcConvertMac (macaddr : CString) : Option (Int × List Byte) :=
  convertLoop macaddr ethAlen 0 []

/-- One digit of `%02x`. -/
def hexChar (n : Nat) : Byte := BitVec.ofNat 8 (if n < 10 then 0x30 + n else 0x57 + n)

/-- `%02x` of a number below 256 -/
def printByte (n : Nat) : List Byte := [hexChar (n / 16), hexChar (n % 16)]

/-- `"00:16:3e:"` -/
def vendor : List Byte := [0x30, 0x30, 0x3a, 0x31, 0x36, 0x3a, 0x33, 0x65, 0x3a]

/-- What `new_hwaddr` prints for three results of `rand`. -/
def newHwaddr (rand1 rand2 rand3 : Nat) : List Byte :=
  vendor ++ printByte (rand1 % 255) ++ [colon] ++ printByte (rand2 % 255) ++ [colon] ++
    printByte (rand3 % 255)

/-- What the functions outside `setup_hw_addr` give; `none` stands for success. -/
structure Sockets where
  socket : Option Errno
  /-- the result of `ioctl` -/
  ioctl : Int

/-- `struct ifreq`, with the bytes that have not been stored to left open. -/
structure Ifreq where
  ifrName : List Byte
  saFamily : Nat
  saData : List (Option Byte)
  deriving DecidableEq

def ARPHRD_ETHER : Nat := 1

/-- `ifname` points to an object of these bytes; sixteen are copied whatever its size. -/
def setupHwAddr (sockets : Sockets) (hwaddr : CString) (ifname : List Byte) :
    Option (Int × Option Ifreq) := do
  let (ret, data) ← lxcConvertMac hwaddr
  if ret ≠ 0 then some (-1, none)
  else if ifname.length < 16 then none
  else
    match sockets.socket with
    | some _ => some (-1, none)
    | none => some (sockets.ioctl, some ⟨ifname.take 15 ++ [0], ARPHRD_ETHER,
        data.map some ++ List.replicate (14 - data.length) none⟩)

/-! ## What is accepted -/

/-- The characters that spell the bytes of at most `left` groups.  What comes after
the last group is not looked at. -/
inductive Spells : (left : Nat) → (text : List Byte) → (data : List Byte) → Prop where
  | done (text : List Byte) : Spells 0 text []
  | stop (left : Nat) : Spells (left + 1) [] []
  | last {left : Nat} {c : Byte} {x : BitVec 32} (hdigit : digit c = some x) :
      Spells (left + 1) [c] [x.setWidth 8]
  | single {left : Nat} {c : Byte} {x : BitVec 32} {text data : List Byte} (again : Bool)
      (hdigit : digit c = some x) (hrest : Spells left text data) :
      Spells (left + 1) (c :: colon :: ((if again then [colon] else []) ++ text))
        (x.setWidth 8 :: data)
  | pair {left : Nat} {c d : Byte} {x y : BitVec 32} {text data : List Byte} (separated : Bool)
      (hhigh : digit c = some x) (hlow : digit d = some y) (hrest : Spells left text data) :
      Spells (left + 1) (c :: d :: ((if separated then [colon] else []) ++ text))
        ((16 * x + y).setWidth 8 :: data)

theorem digit_lt {c : Byte} {x : BitVec 32} (hdigit : digit c = some x) : x.toNat < 16 := by
  unfold digit at hdigit
  split at hdigit
  · cases hdigit
    bv_omega
  · split at hdigit
    · cases hdigit
      bv_omega
    · split at hdigit
      · cases hdigit
        bv_omega
      · cases hdigit

theorem digit_colon : digit colon = none := rfl

theorem setWidth_and_mask (val : BitVec 32) : (val &&& 0xff).setWidth 8 = val.setWidth 8 := by
  refine BitVec.eq_of_toNat_eq ?_
  rw [BitVec.toNat_setWidth, BitVec.toNat_setWidth, BitVec.toNat_and]
  have hmask := Nat.and_two_pow_sub_one_eq_mod val.toNat 8
  have hbits : (0xff : BitVec 32).toNat = 2 ^ 8 - 1 := rfl
  rw [hbits, hmask, Nat.mod_mod]

theorem second_digit {x y : BitVec 32} {c : Byte} (hx : x.toNat < 16) (hdigit : digit c = some y) :
    second (x <<< 4) c = some (16 * x + y) := by
  have hy : y.toNat < 2 ^ 4 := digit_lt hdigit
  have hshift : x.toNat <<< 4 < 2 ^ 32 := by
    rw [Nat.shiftLeft_eq]
    omega
  have hor : x <<< 4 ||| y = 16 * x + y := by
    refine BitVec.eq_of_toNat_eq ?_
    rw [BitVec.toNat_or, BitVec.toNat_shiftLeft, Nat.mod_eq_of_lt hshift,
      ← Nat.shiftLeft_add_eq_or_of_lt hy, Nat.shiftLeft_eq]
    bv_omega
  rw [second, hdigit]
  exact congrArg some hor

theorem second_end {x : BitVec 32} {c : Byte} (hx : x.toNat < 16) (hend : c = colon ∨ c = 0) :
    second (x <<< 4) c = some x := by
  have hdigit : digit c = none := by
    obtain rfl | rfl := hend
    · rfl
    · rfl
  have hback : x <<< 4 >>> 4 = x := by
    refine BitVec.eq_of_toNat_eq ?_
    rw [BitVec.toNat_ushiftRight, BitVec.toNat_shiftLeft, Nat.shiftRight_eq_div_pow,
      Nat.shiftLeft_eq]
    omega
  rw [second, hdigit]
  dsimp only
  rw [if_pos hend, hback]

/-- The characters from the pointer on, up to the zero. -/
structure Rest (s : CString) (p : Nat) (text : List Byte) : Prop where
  inside : p ≤ s.bytes.length
  eq : s.bytes.drop p = text

namespace Rest

variable {s : CString} {p : Nat} {c : Byte} {text : List Byte}

theorem read_nil (hrest : Rest s p []) : read s p = some 0 := by
  have hinside := hrest.inside
  have hend := List.drop_eq_nil_iff.mp hrest.eq
  have hp : p = s.bytes.length := by omega
  rw [read, hp, List.getElem?_append_right (Nat.le_refl _), Nat.sub_self]
  rfl

theorem read_cons (hrest : Rest s p (c :: text)) :
    read s p = some c ∧ c ≠ 0 ∧ Rest s (p + 1) text := by
  have hlength := congrArg List.length hrest.eq
  rw [List.length_drop, List.length_cons] at hlength
  have hlt : p < s.bytes.length := by omega
  have hget := List.drop_eq_getElem_cons hlt
  rw [hrest.eq] at hget
  obtain ⟨hc, htext⟩ := List.cons.inj hget
  refine ⟨?_, ?_, by omega, htext.symm⟩
  · rw [read, List.getElem?_append_left hlt, List.getElem?_eq_getElem hlt, hc]
  · rintro rfl
    exact s.noNul (hc ▸ List.getElem_mem hlt)

end Rest

/-- A colon at the front is passed over. -/
def skip : List Byte → List Byte
  | [] => []
  | c :: text => if c = colon then text else c :: text

theorem Rest.skip {s : CString} {p : Nat} {text : List Byte} (hrest : Rest s p text) :
    ∃ next, read s p = some next ∧
      Rest s (if next = colon then p + 1 else p) (HardwareAddress.skip text) := by
  cases text with
  | nil => exact ⟨0, hrest.read_nil, hrest⟩
  | cons c text =>
      obtain ⟨hread, -, hnext⟩ := hrest.read_cons
      refine ⟨c, hread, ?_⟩
      rw [HardwareAddress.skip]
      split
      · exact hnext
      · exact hrest

def convertText : (left : Nat) → (text data : List Byte) → Int × List Byte
  | 0, _, data => (0, data)
  | _ + 1, [], data => (0, data)
  | left + 1, c :: text, data =>
      match digit c with
      | none => (-EINVAL, data)
      | some x =>
          match text with
          | [] => (0, data ++ [x.setWidth 8])
          | d :: rest =>
              match digit d with
              | some y => convertText left (skip rest) (data ++ [(16 * x + y).setWidth 8])
              | none =>
                  if d = colon then convertText left (skip rest) (data ++ [x.setWidth 8])
                  else (-EINVAL, data)

theorem convertLoop_eq {s : CString} (left : Nat) {p : Nat} {text : List Byte}
    (hrest : Rest s p text) (data : List Byte) :
    convertLoop s left p data = some (convertText left text data) := by
  induction left generalizing p text data with
  | zero =>
      obtain ⟨next, hread, -⟩ := hrest.skip
      rw [convertLoop, hread]
      rfl
  | succ left ih =>
      cases text with
      | nil =>
          rw [convertLoop, hrest.read_nil]
          rfl
      | cons c text =>
          obtain ⟨hread, hc, hnext⟩ := hrest.read_cons
          rw [convertLoop, hread, convertText, Option.bind_eq_bind, Option.bind_some, if_neg hc]
          cases hdigit : digit c with
          | none => rfl
          | some x =>
              have hx := digit_lt hdigit
              dsimp only
              cases text with
              | nil =>
                  have hstay : ¬ (0 : Byte) ≠ 0 := fun hne => hne rfl
                  have hcolon : ¬ (0 : Byte) = colon := by decide
                  rw [hnext.read_nil, Option.bind_some, second_end hx (.inr rfl)]
                  dsimp only
                  rw [if_neg hstay, hnext.read_nil, Option.bind_some, if_neg hcolon, ih hnext,
                    setWidth_and_mask]
                  cases left with
                  | zero => rfl
                  | succ left => rfl
              | cons d rest =>
                  obtain ⟨hread', hd, hrest'⟩ := hnext.read_cons
                  obtain ⟨next, hreadNext, hskip⟩ := hrest'.skip
                  rw [hread', Option.bind_some]
                  dsimp only
                  rw [if_pos hd]
                  cases hlow : digit d with
                  | some y =>
                      rw [second_digit hx hlow]
                      dsimp only
                      rw [hreadNext, Option.bind_some, ih hskip, setWidth_and_mask]
                  | none =>
                      dsimp only
                      by_cases hcolon : d = colon
                      · rw [second_end hx (.inl hcolon), if_pos hcolon]
                        dsimp only
                        rw [hreadNext, Option.bind_some, ih hskip, setWidth_and_mask]
                      · rw [second, hlow, if_neg hcolon]
                        dsimp only
                        rw [if_neg (not_or.mpr ⟨hcolon, hd⟩)]

theorem skip_split (text : List Byte) :
    ∃ separated : Bool, text = (if separated then [colon] else []) ++ skip text := by
  cases text with
  | nil => exact ⟨false, rfl⟩
  | cons c text =>
      rw [skip]
      split
      · rename_i hcolon
        exact ⟨true, by rw [hcolon]; rfl⟩
      · exact ⟨false, rfl⟩

theorem skip_separated (text : List Byte) : skip (colon :: text) = text := by
  rw [skip, if_pos rfl]

/-- A colon is passed over where a group has to follow only if there is none. -/
theorem Spells.convertText_skip {left : Nat} {text data : List Byte}
    (hspells : Spells left text data) (stored : List Byte) :
    convertText left (skip text) stored = convertText left text stored := by
  have hkeep : ∀ {c : Byte} {x : BitVec 32} {rest : List Byte}, digit c = some x →
      skip (c :: rest) = c :: rest := by
    intro c x rest hdigit
    refine if_neg ?_
    rintro rfl
    cases digit_colon.symm.trans hdigit
  cases hspells with
  | done => rfl
  | stop => rfl
  | last hdigit => rw [hkeep hdigit]
  | single again hdigit hrest => rw [hkeep hdigit]
  | pair separated hhigh hlow hrest => rw [hkeep hhigh]

theorem Spells.convertText_eq {left : Nat} {text data : List Byte}
    (hspells : Spells left text data) (stored : List Byte) :
    convertText left text stored = (0, stored ++ data) := by
  have hskip : ∀ {left : Nat} {text data stored : List Byte} (separated : Bool),
      Spells left text data →
      convertText left (skip ((if separated then [colon] else []) ++ text)) stored =
        convertText left text stored := by
    intro left text data stored separated hrest
    cases separated with
    | true => exact congrArg (convertText left · stored) (skip_separated text)
    | false => exact hrest.convertText_skip stored
  induction hspells generalizing stored with
  | done => rw [convertText, List.append_nil]
  | stop => rw [convertText, List.append_nil]
  | last hdigit => rw [convertText, hdigit]
  | single again hdigit hrest ih =>
      rw [convertText, hdigit]
      dsimp only
      rw [digit_colon]
      dsimp only
      rw [if_pos rfl, hskip again hrest, ih, List.append_assoc, List.singleton_append]
  | pair separated hhigh hlow hrest ih =>
      rw [convertText, hhigh]
      dsimp only
      rw [hlow]
      dsimp only
      rw [hskip separated hrest, ih, List.append_assoc, List.singleton_append]

theorem spells_of_convertText {left : Nat} {text stored data' : List Byte}
    (hconvert : convertText left text stored = (0, data')) :
    ∃ data, data' = stored ++ data ∧ Spells left text data := by
  have herror : ∀ {bytes : List Byte}, (-EINVAL, bytes) ≠ (0, data') := by
    intro bytes heq
    have hne : -EINVAL ≠ 0 := by decide
    exact hne (congrArg Prod.fst heq)
  induction left generalizing text stored with
  | zero =>
      cases hconvert
      exact ⟨[], (List.append_nil _).symm, .done text⟩
  | succ left ih =>
      cases text with
      | nil =>
          cases hconvert
          exact ⟨[], (List.append_nil _).symm, .stop left⟩
      | cons c text =>
          rw [convertText] at hconvert
          cases hdigit : digit c with
          | none =>
              rw [hdigit] at hconvert
              exact absurd hconvert herror
          | some x =>
              rw [hdigit] at hconvert
              cases text with
              | nil =>
                  cases hconvert
                  exact ⟨_, rfl, .last hdigit⟩
              | cons d rest =>
                  obtain ⟨separated, hsplit⟩ := skip_split rest
                  dsimp only at hconvert
                  cases hlow : digit d with
                  | some y =>
                      rw [hlow] at hconvert
                      obtain ⟨data, rfl, hspells⟩ := ih hconvert
                      refine ⟨_ :: data, by rw [List.append_assoc, List.singleton_append], ?_⟩
                      rw [hsplit]
                      exact .pair separated hdigit hlow hspells
                  | none =>
                      rw [hlow] at hconvert
                      dsimp only at hconvert
                      by_cases hcolon : d = colon
                      · rw [if_pos hcolon] at hconvert
                        obtain ⟨data, rfl, hspells⟩ := ih hconvert
                        refine ⟨_ :: data, by rw [List.append_assoc, List.singleton_append], ?_⟩
                        rw [hsplit, hcolon]
                        exact .single separated hdigit hspells
                      · rw [if_neg hcolon] at hconvert
                        exact absurd hconvert herror

theorem convertText_bounds (left : Nat) (text data : List Byte) :
    ((convertText left text data).1 = 0 ∨ (convertText left text data).1 = -EINVAL) ∧
      (convertText left text data).2.length ≤ data.length + left := by
  fun_induction convertText left text data with
  | case1 text data => exact ⟨.inl rfl, Nat.le_refl _⟩
  | case2 left data => exact ⟨.inl rfl, Nat.le_add_right _ _⟩
  | case3 left c text data hdigit => exact ⟨.inr rfl, Nat.le_add_right _ _⟩
  | case4 left c data x hdigit =>
      refine ⟨.inl rfl, ?_⟩
      rw [List.length_append, List.length_singleton]
      omega
  | case5 left c data x hdigit d rest y hlow ih =>
      obtain ⟨hret, hle⟩ := ih
      rw [List.length_append, List.length_singleton] at hle
      exact ⟨hret, by omega⟩
  | case6 left c data x hdigit rest hlow ih =>
      obtain ⟨hret, hle⟩ := ih
      rw [List.length_append, List.length_singleton] at hle
      exact ⟨hret, by omega⟩
  | case7 left c data x hdigit d rest hlow hcolon => exact ⟨.inr rfl, Nat.le_add_right _ _⟩

theorem lxcConvertMac_eq (macaddr : CString) :
    lxcConvertMac macaddr = some (convertText ethAlen macaddr.bytes []) :=
  convertLoop_eq ethAlen ⟨Nat.zero_le _, rfl⟩ []

/-- The function always returns, never reads behind the end of the string and stores at
most six bytes; it accepts what is spelled by groups of digits, with these bytes. -/
theorem lxcConvertMac_spec (macaddr : CString) :
    ∃ ret data, lxcConvertMac macaddr = some (ret, data) ∧ data.length ≤ ethAlen ∧
      (ret = 0 ∧ Spells ethAlen macaddr.bytes data ∨
        ret = -EINVAL ∧ ∀ other, ¬ Spells ethAlen macaddr.bytes other) := by
  obtain ⟨hret, hle⟩ := convertText_bounds ethAlen macaddr.bytes []
  refine ⟨_, _, lxcConvertMac_eq macaddr, by rw [List.length_nil] at hle; omega, ?_⟩
  obtain hzero | herror := hret
  · left
    obtain ⟨data, hdata, hspells⟩ := spells_of_convertText (Prod.ext hzero rfl)
    rw [List.nil_append] at hdata
    have hstored : (convertText ethAlen macaddr.bytes []).snd = data := hdata
    rw [hstored]
    exact ⟨hzero, hspells⟩
  · right
    refine ⟨herror, fun other hspells => ?_⟩
    have hne : (0 : Int) ≠ -EINVAL := by decide
    exact hne ((congrArg Prod.fst (hspells.convertText_eq [])).symm.trans herror)

theorem digit_hexChar {n : Nat} (hn : n < 16) : digit (hexChar n) = some (BitVec.ofNat 32 n) := by
  have hall : ∀ n < 16, digit (hexChar n) = some (BitVec.ofNat 32 n) := by decide
  exact hall n hn

theorem printed_value (n : Nat) :
    (16 * BitVec.ofNat 32 (n / 16) + BitVec.ofNat 32 (n % 16)).setWidth 8 = BitVec.ofNat 8 n := by
  have hall : 16 * BitVec.ofNat 32 (n / 16) + BitVec.ofNat 32 (n % 16) = BitVec.ofNat 32 n := by
    refine BitVec.eq_of_toNat_eq ?_
    rw [BitVec.toNat_add, BitVec.toNat_mul, BitVec.toNat_ofNat, BitVec.toNat_ofNat,
      BitVec.toNat_ofNat]
    have hsixteen : (16 : BitVec 32).toNat = 16 := rfl
    rw [hsixteen]
    omega
  rw [hall]
  refine BitVec.eq_of_toNat_eq ?_
  rw [BitVec.toNat_setWidth, BitVec.toNat_ofNat, BitVec.toNat_ofNat]
  omega

/-- Numbers printed with `%02x`, and a colon behind each but the last. -/
def printAddress : List Nat → List Byte
  | [] => []
  | [n] => printByte n
  | n :: m :: rest => printByte n ++ colon :: printAddress (m :: rest)

theorem spells_printAddress {left : Nat} {numbers : List Nat} (hlength : numbers.length ≤ left)
    (hnumbers : ∀ n ∈ numbers, n < 256) :
    Spells left (printAddress numbers) (numbers.map (BitVec.ofNat 8)) := by
  induction numbers generalizing left with
  | nil =>
      cases left with
      | zero => exact .done []
      | succ left => exact .stop left
  | cons n rest ih =>
      obtain ⟨left, rfl⟩ := Nat.exists_eq_succ_of_ne_zero
        (Nat.ne_of_gt (Nat.lt_of_lt_of_le (Nat.succ_pos _) hlength))
      have hn := hnumbers n List.mem_cons_self
      have htail := ih (Nat.le_of_succ_le_succ hlength)
        fun m hm => hnumbers m (List.mem_cons_of_mem n hm)
      rw [List.map_cons, ← printed_value n]
      cases rest with
      | nil =>
          exact .pair false (digit_hexChar (by omega)) (digit_hexChar (by omega)) htail
      | cons m rest =>
          exact .pair true (digit_hexChar (by omega)) (digit_hexChar (by omega)) htail

theorem lxcConvertMac_printAddress {s : CString} {numbers : List Nat}
    (hlength : numbers.length ≤ ethAlen) (hnumbers : ∀ n ∈ numbers, n < 256)
    (hs : s.bytes = printAddress numbers) :
    lxcConvertMac s = some (0, numbers.map (BitVec.ofNat 8)) := by
  rw [lxcConvertMac_eq, hs, (spells_printAddress hlength hnumbers).convertText_eq, List.nil_append]

/-- The address that `new_hwaddr` prints reaches the interface as it was meant, unless
the name is in an object of fewer than sixteen bytes, behind which is then read. -/
theorem setupHwAddr_newHwaddr (sockets : Sockets) (hwaddr : CString) (rand1 rand2 rand3 : Nat)
    (hhwaddr : hwaddr.bytes = newHwaddr rand1 rand2 rand3) (ifname : List Byte)
    (hsocket : sockets.socket = none) :
    setupHwAddr sockets hwaddr ifname =
      if ifname.length < 16 then none
      else some (sockets.ioctl, some ⟨ifname.take 15 ++ [0], ARPHRD_ETHER,
        [some 0x00, some 0x16, some 0x3e, some (BitVec.ofNat 8 (rand1 % 255)),
          some (BitVec.ofNat 8 (rand2 % 255)), some (BitVec.ofNat 8 (rand3 % 255))] ++
            List.replicate 8 none⟩) := by
  have hprinted : hwaddr.bytes =
      printAddress [0x00, 0x16, 0x3e, rand1 % 255, rand2 % 255, rand3 % 255] := hhwaddr
  have hbelow : ∀ n ∈ [0x00, 0x16, 0x3e, rand1 % 255, rand2 % 255, rand3 % 255], n < 256 := by
    simp only [List.forall_mem_cons, List.not_mem_nil, false_implies, implies_true, and_true]
    omega
  have hconvert := lxcConvertMac_printAddress (Nat.le_refl _) hbelow hprinted
  have hzero : ¬ (0 : Int) ≠ 0 := fun hne => hne rfl
  rw [setupHwAddr, hconvert, Option.bind_eq_bind, Option.bind_some, hsocket]
  dsimp only
  rw [if_neg hzero]
  rfl

theorem setupHwAddr_newHwaddr_example : ∃ hwaddr : CString, hwaddr.bytes = newHwaddr 254 255 256 ∧
    setupHwAddr ⟨none, 0⟩ hwaddr ([0x65, 0x74, 0x68, 0x30] ++ List.replicate 12 0) =
      some (0, some ⟨[0x65, 0x74, 0x68, 0x30] ++ List.replicate 12 0, ARPHRD_ETHER,
        [some 0x00, some 0x16, some 0x3e, some 0xfe, some 0x00, some 0x01] ++
          List.replicate 8 none⟩) :=
  ⟨⟨newHwaddr 254 255 256, by decide⟩, rfl, (setupHwAddr_newHwaddr ⟨none, 0⟩ _ 254 255 256 rfl
    ([0x65, 0x74, 0x68, 0x30] ++ List.replicate 12 0) rfl).trans rfl⟩

end CsInternal.ToyDocker.HardwareAddress
