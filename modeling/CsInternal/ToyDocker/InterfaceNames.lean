import CsInternal.Library.Loop
import CsInternal.ToyDocker.LinkMeanings
import Mathlib.Data.List.Forall2
import Mathlib.Data.List.Count

/-!
# Names of new interfaces in `network.c` and `toy_docker.c`

`lxc_mkifname` draws characters for the letters X of a template until no interface has
the name.  `init_network` takes the two names of a pair of interfaces from it.
-/

namespace CsInternal.ToyDocker.InterfaceNames

open CsInternal.Library
open CsInternal.ToyDocker.NetlinkMessage
open CsInternal.ToyDocker.NetlinkTransaction
open CsInternal.ToyDocker.LinkRequests
open CsInternal.ToyDocker.LinkMeanings

abbrev Byte := BitVec 8

def cstring (s : String) : List Byte := s.toList.map fun c => BitVec.ofNat 8 c.toNat

def padchar : List Byte := cstring "0123456789ABCDEFGHIJKLMNOPQRSTUVWXYZ"

/-- The letter that is replaced. -/
def wildcard : Byte := 0x58

/-- The loop over the characters of the copy, with the number of calls of `rand` so far.
The last character of `padchar` is out of reach of the remainder. -/
def fillIn (rand : Nat → Nat) : (name : List Byte) → (calls : Nat) → List Byte × Nat
  | [], calls => ([], calls)
  | c :: rest, calls =>
      if c = wildcard then
        let (filled, calls') := fillIn rand rest (calls + 1)
        (padchar.getD (rand calls % (padchar.length - 1)) 0 :: filled, calls')
      else
        let (filled, calls') := fillIn rand rest calls
        (c :: filled, calls')

/-- What the calls in `lxc_mkifname` give. -/
structure Draws where
  /-- the results of `rand` in their order -/
  rand : Nat → Nat
  /-- whether `strdup` gets memory in a turn of the loop -/
  strdup : Nat → Bool
  /-- the names from `getifaddrs` -/
  interfaces : List (List Byte)

/-- The head of the loop: the turns and the calls of `rand` so far. -/
structure Head where
  turns : Nat
  calls : Nat

/-- One turn; the result is the pointer that is returned. -/
def turn (draws : Draws) (template : List Byte) (head : Head) : Option (List Byte) ⊕ Head :=
  if draws.strdup head.turns then
    let (name, calls) := fillIn draws.rand template head.calls
    if name ∈ draws.interfaces then .inr ⟨head.turns + 1, calls⟩ else .inl (some name)
  else .inl none

/-- `lxc_mkifname` returns this pointer after so many names that were taken. -/
def LxcMkifname (draws : Draws) (template : List Byte) (taken : Nat)
    (name : Option (List Byte)) : Prop :=
  Loop.Exits (turn draws template) ⟨0, 0⟩ taken name

/-- The name of a turn, if the loop gets that far. -/
def candidate (draws : Draws) (template : List Byte) (turns : Nat) : List Byte :=
  (fillIn draws.rand template (turns * template.count wildcard)).1

theorem fillIn_calls (rand : Nat → Nat) (template : List Byte) (calls : Nat) :
    (fillIn rand template calls).2 = calls + template.count wildcard := by
  induction template generalizing calls with
  | nil => rfl
  | cons c rest ih =>
      rw [fillIn]
      split
      · rename_i hc
        rw [hc, List.count_cons_self]
        have hrest := ih (calls + 1)
        dsimp only
        omega
      · rename_i hc
        rw [List.count_cons_of_ne hc]
        exact ih calls

/-- A character of a name stands for one of the template. -/
def Fits (c d : Byte) : Prop := if c = wildcard then d ∈ padchar.take 35 else d = c

theorem fillIn_fits (rand : Nat → Nat) (template : List Byte) (calls : Nat) :
    List.Forall₂ Fits template (fillIn rand template calls).1 := by
  induction template generalizing calls with
  | nil => exact .nil
  | cons c rest ih =>
      rw [fillIn]
      split
      · rename_i hc
        refine .cons ?_ (ih (calls + 1))
        have hall : ∀ n < 35, padchar.getD n 0 ∈ padchar.take 35 := by decide
        rw [Fits, if_pos hc]
        exact hall _ (Nat.mod_lt _ (by decide))
      · rename_i hc
        refine .cons ?_ (ih calls)
        rw [Fits, if_neg hc]

theorem turn_eq (draws : Draws) (template : List Byte) (turns : Nat) :
    turn draws template ⟨turns, turns * template.count wildcard⟩ =
      if draws.strdup turns then
        if candidate draws template turns ∈ draws.interfaces then
          .inr ⟨turns + 1, (turns + 1) * template.count wildcard⟩
        else .inl (some (candidate draws template turns))
      else .inl none := by
  have hcalls := fillIn_calls draws.rand template (turns * template.count wildcard)
  rw [← Nat.succ_mul] at hcalls
  rw [turn]
  dsimp only
  rw [hcalls, candidate]

/-- The function returns the first name that is free, and runs on as long as there is
none; a null pointer comes from `strdup` alone. -/
theorem lxcMkifname_iff {draws : Draws} {template : List Byte} {taken : Nat}
    {name : Option (List Byte)} :
    LxcMkifname draws template taken name ↔
      (∀ m < taken, draws.strdup m = true ∧ candidate draws template m ∈ draws.interfaces) ∧
        (draws.strdup taken = false ∧ name = none ∨
          draws.strdup taken = true ∧ candidate draws template taken ∉ draws.interfaces ∧
            name = some (candidate draws template taken)) := by
  have hstates : ∀ m t, turn draws template ⟨m, m * template.count wildcard⟩ = .inr t →
      t = ⟨m + 1, (m + 1) * template.count wildcard⟩ := by
    intro m t hturn
    rw [turn_eq] at hturn
    split at hturn
    · split at hturn
      · exact (Sum.inr.inj hturn).symm
      · cases hturn
    · cases hturn
  have hexits := Loop.exits_iff_of_states hstates (k := 0) (n := taken) (r := name)
  rw [Nat.zero_mul] at hexits
  rw [LxcMkifname, hexits]
  simp only [Nat.zero_add]
  refine and_congr (forall₂_congr fun m _ => ?_) ?_
  · rw [turn_eq]
    constructor
    · rintro ⟨t, hturn⟩
      split at hturn
      · rename_i hstrdup
        split at hturn
        · rename_i hmem
          exact ⟨hstrdup, hmem⟩
        · cases hturn
      · cases hturn
    · rintro ⟨hstrdup, hmem⟩
      exact ⟨_, by rw [if_pos hstrdup, if_pos hmem]⟩
  · rw [turn_eq]
    cases draws.strdup taken with
    | false =>
        rw [if_neg Bool.false_ne_true]
        constructor
        · intro hleave
          exact .inl ⟨rfl, (Sum.inl.inj hleave).symm⟩
        · rintro (⟨-, rfl⟩ | ⟨hstrdup, -⟩)
          · rfl
          · cases hstrdup
    | true =>
        rw [if_pos rfl]
        constructor
        · intro hleave
          split at hleave
          · cases hleave
          · rename_i hfree
            exact .inr ⟨rfl, hfree, (Sum.inl.inj hleave).symm⟩
        · rintro (⟨hstrdup, -⟩ | ⟨-, hfree, rfl⟩)
          · cases hstrdup
          · rw [if_neg hfree]

/-- `veth0buf` and `veth1buf` -/
def veth0buf : List Byte := cstring "veth00X"
def veth1buf : List Byte := cstring "veth01X"

/-- The two calls of `lxc_mkifname` in `init_network`, each with its own draws. -/
structure Pair (draws0 draws1 : Draws) (name0 name1 : CString) : Prop where
  first : ∃ taken, LxcMkifname draws0 veth0buf taken (some name0.bytes)
  second : ∃ taken, LxcMkifname draws1 veth1buf taken (some name1.bytes)

/-- What is known of a name that the function has returned. -/
theorem fits_of_mkifname {draws : Draws} {template name : List Byte} {taken : Nat}
    (hname : LxcMkifname draws template taken (some name)) :
    name ∉ draws.interfaces ∧ List.Forall₂ Fits template name := by
  obtain ⟨head, -, hturn⟩ := Loop.Exits.last hname
  rw [turn] at hturn
  split at hturn
  · dsimp only at hturn
    split at hturn
    · cases hturn
    · rename_i hfree
      obtain rfl := Option.some.inj (Sum.inl.inj hturn)
      exact ⟨hfree, fillIn_fits _ _ _⟩
  · cases hturn

theorem ne_of_pair {draws0 draws1 : Draws} {name0 name1 : CString}
    (hpair : Pair draws0 draws1 name0 name1) : name0.bytes ≠ name1.bytes := by
  obtain ⟨⟨_, hfirst⟩, ⟨_, hsecond⟩⟩ := hpair
  obtain ⟨-, hfits0⟩ := fits_of_mkifname hfirst
  obtain ⟨-, hfits1⟩ := fits_of_mkifname hsecond
  intro hsame
  rw [hsame] at hfits0
  have hlength : 5 < name1.bytes.length := by
    rw [← hfits1.length_eq]
    decide
  have hzero : name1.bytes.get ⟨5, hlength⟩ = 0x30 := hfits0.get (by decide) hlength
  have hone : name1.bytes.get ⟨5, hlength⟩ = 0x31 := hfits1.get (by decide) hlength
  exact absurd (hzero.symm.trans hone) (by decide)

theorem goodName_of_fits {template : List Byte} {name : CString}
    (hfits : List.Forall₂ Fits template name.bytes) (htemplate : template.length = 7) :
    goodName name = true ∧ NameBounded name := by
  have hlength : name.bytes.length = 7 := by rw [← hfits.length_eq, htemplate]
  refine ⟨goodName_of_length hlength (by decide) (by decide), ?_⟩
  rw [NameBounded, hlength]
  decide

/-- The two names that `init_network` gets are names that an interface may have, differ and
belonged to no interface; where `lxc_veth_create` sends a message for them, the kernel is
asked for this pair. -/
theorem initNetwork_pair {draws0 draws1 : Draws} {name0 name1 : CString}
    (hpair : Pair draws0 draws1 name0 name1) (env : Env) (w : World) :
    goodName name0 = true ∧ goodName name1 = true ∧ name0.bytes ≠ name1.bytes ∧
      name0.bytes ∉ draws0.interfaces ∧ name1.bytes ∉ draws1.interfaces ∧
      ∀ ret w', lxcVethCreate env name0 name1 w = .ok (ret, w') → w'.sent ≠ w.sent →
        ∃ bytes, w'.sent = w.sent ++ [bytes] ∧
          decode bytes = some (.createVeth name0.bytes name1.bytes) := by
  obtain ⟨⟨_, hfirst⟩, ⟨_, hsecond⟩⟩ := id hpair
  obtain ⟨hfree0, hfits0⟩ := fits_of_mkifname hfirst
  obtain ⟨hfree1, hfits1⟩ := fits_of_mkifname hsecond
  obtain ⟨hgood0, hbound0⟩ := goodName_of_fits hfits0 rfl
  obtain ⟨hgood1, hbound1⟩ := goodName_of_fits hfits1 rfl
  refine ⟨hgood0, hgood1, ne_of_pair hpair, hfree0, hfree1, ?_⟩
  intro ret w' hrun hsent
  have hends := vethCreate_ends env hbound0 hbound1 w
  rw [hrun] at hends
  cases hends with
  | notOpened _ =>
      split at hsent
      · exact absurd rfl hsent
      · exact absurd rfl hsent
  | notSent _ _ _ => exact absurd rfl hsent
  | sent _ bytes _ hdecode _ => exact ⟨bytes, rfl, hdecode⟩

/-! Draws in which the second names `veth000` and `veth010` are free. -/

def exampleDraws : Draws where
  rand := fun calls => 1 - calls
  strdup := fun _ => true
  interfaces := [cstring "lo", cstring "veth001", cstring "veth011"]

def exampleName0 : CString := ⟨cstring "veth000", by decide⟩
def exampleName1 : CString := ⟨cstring "veth010", by decide⟩

theorem exampleDraws_pair : Pair exampleDraws exampleDraws exampleName0 exampleName1 :=
  ⟨⟨1, .again rfl (.leave rfl)⟩, ⟨1, .again rfl (.leave rfl)⟩⟩

theorem initNetwork_pair_example :
    goodName exampleName0 = true ∧ goodName exampleName1 = true := by
  obtain ⟨hgood0, hgood1, -⟩ := initNetwork_pair exampleDraws_pair exampleEnv ⟨0, 0, []⟩
  exact ⟨hgood0, hgood1⟩

end CsInternal.ToyDocker.InterfaceNames
