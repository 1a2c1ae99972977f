import Mathlib.Algebra.Group.Nat.Defs
import Mathlib.Data.List.Basic

/-!
Internet addresses and networks, as the standard library's `ipaddress` reads
and writes them. An address is its bits, an IPv6 address with an optional scope.
A network keeps the masked address and the length of its prefix; an address is
in it when masking gives the network's own address, which is to say that the
two agree on the leading bits of the prefix.
-/
namespace Grafy.Addresses

/-- `ipaddress.IPv4Address` and `ipaddress.IPv6Address`. -/
inductive Address where
  | v4 (bits : BitVec 32)
  | v6 (bits : BitVec 128) (scope : Option (List Char))
deriving DecidableEq

/-- `ipaddress.IPv4Network` and `ipaddress.IPv6Network`. -/
inductive Network where
  | v4 (address : BitVec 32) (prefixlen : ℕ)
  | v6 (address : BitVec 128) (scope : Option (List Char)) (prefixlen : ℕ)
deriving DecidableEq

def Address.maxPrefixlen : Address → ℕ
  | .v4 _ => 32
  | .v6 _ _ => 128

/-- An address without its scope, as the text before `%` reads. -/
def Address.unscoped : Address → Address
  | .v4 bits => .v4 bits
  | .v6 bits _ => .v6 bits none

def netmask (w p : ℕ) : BitVec w := BitVec.allOnes w <<< (w - p)

/-! Membership -/

def Network.prefixlen : Network → ℕ
  | .v4 _ p => p
  | .v6 _ _ p => p

def Network.maxPrefixlen : Network → ℕ
  | .v4 _ _ => 32
  | .v6 _ _ _ => 128

def Network.networkAddress : Network → Address
  | .v4 bits _ => .v4 bits
  | .v6 bits scope _ => .v6 bits scope

/-- `address in network`, false across versions. -/
def Network.contains : Network → Address → Bool
  | .v4 address p, .v4 bits => bits &&& netmask 32 p = address
  | .v6 address _ p, .v6 bits _ => bits &&& netmask 128 p = address
  | _, _ => false

/-- Two addresses of one version with the same leading bits. -/
def AgreeOn (p : ℕ) : Address → Address → Prop
  | .v4 a, .v4 b => ∀ i < p, a.getMsbD i = b.getMsbD i
  | .v6 a _, .v6 b _ => ∀ i < p, a.getMsbD i = b.getMsbD i
  | _, _ => False

/-- The network of an address at a prefix, host bits cleared (`strict=False`).
Clearing a bit builds the address anew and its scope is lost. -/
def Address.network (p : ℕ) : Address → Network
  | .v4 bits => .v4 (bits &&& netmask 32 p) p
  | .v6 bits scope =>
    .v6 (bits &&& netmask 128 p) (if bits &&& netmask 128 p = bits then scope else none) p

@[simp]
theorem network_prefixlen (a : Address) (p : ℕ) : (a.network p).prefixlen = p := by
  cases a <;> rfl

@[simp]
theorem network_maxPrefixlen (a : Address) (p : ℕ) :
    (a.network p).maxPrefixlen = a.maxPrefixlen := by
  cases a <;> rfl

theorem getMsbD_netmask (w p i : ℕ) :
    (netmask w p).getMsbD i = (decide (i < w) && decide (i < p)) := by
  rw [netmask, BitVec.getMsbD_shiftLeft, BitVec.getMsbD_allOnes]
  by_cases hi : i < w
  · by_cases hp : i < p
    · simp [hi, hp]
      omega
    · simp [hp]
      omega
  · simp [hi]
    omega

theorem masked_eq_iff {w : ℕ} (a b : BitVec w) (p : ℕ) :
    b &&& netmask w p = a &&& netmask w p ↔ ∀ i < p, b.getMsbD i = a.getMsbD i := by
  constructor
  · intro h i hi
    by_cases hw : i < w
    · have hbit := congrArg (fun x => x.getMsbD i) h
      simpa [BitVec.getMsbD_and, getMsbD_netmask, hi, hw] using hbit
    · rw [BitVec.getMsbD_of_ge b i (by omega), BitVec.getMsbD_of_ge a i (by omega)]
  · intro h
    apply BitVec.eq_of_getMsbD_eq
    intro i hi
    by_cases hp : i < p
    · simp [BitVec.getMsbD_and, h i hp]
    · simp [BitVec.getMsbD_and, getMsbD_netmask, hp]

/-- An address is in a network just when it has the leading bits of the address the
network was made from. -/
theorem contains_network_iff (a base : Address) (p : ℕ) :
    (base.network p).contains a = true ↔ AgreeOn p a base := by
  cases base with
  | v4 bits =>
    cases a with
    | v4 other =>
      simp only [Address.network, Network.contains, AgreeOn, decide_eq_true_eq]
      exact masked_eq_iff bits other p
    | v6 other scope => simp [Address.network, Network.contains, AgreeOn]
  | v6 bits scope =>
    cases a with
    | v4 other => simp [Address.network, Network.contains, AgreeOn]
    | v6 other _ =>
      simp only [Address.network, Network.contains, AgreeOn, decide_eq_true_eq]
      exact masked_eq_iff bits other p

theorem netmask_full (w : ℕ) : netmask w w = BitVec.allOnes w := by
  simp [netmask]

/-- At the full prefix the network is the address itself, scope included. -/
theorem networkAddress_full (a : Address) : (a.network a.maxPrefixlen).networkAddress = a := by
  cases a with
  | v4 bits =>
    simp only [Address.network, Address.maxPrefixlen, Network.networkAddress, netmask_full,
      BitVec.and_allOnes]
  | v6 bits scope =>
    simp only [Address.network, Address.maxPrefixlen, Network.networkAddress, netmask_full,
      BitVec.and_allOnes, if_true]

/-! Reading texts -/

/-- The value of a run of ASCII digits. -/
def decimalValue (l : List Char) : ℕ := l.foldl (fun n c => 10 * n + (c.toNat - 48)) 0

/-- `_parse_octet`: one to three ASCII digits, no leading zero, at most 255. -/
def parseOctet (l : List Char) : Option ℕ :=
  if l = [] ∨ l.all Char.isDigit = false ∨ 3 < l.length then none
  else if l ≠ ['0'] ∧ l.head? = some '0' then none
  else if 255 < decimalValue l then none
  else some (decimalValue l)

/-- `IPv4Address._ip_from_string`. -/
def v4FromString (l : List Char) : Option (BitVec 32) :=
  match (l.splitOn '.').mapM parseOctet with
  | some [a, b, c, d] => some (BitVec.ofNat 32 (((a * 256 + b) * 256 + c) * 256 + d))
  | _ => none

def hexDigit (c : Char) : Option ℕ :=
  if c.isDigit then some (c.toNat - 48)
  else if 'a' ≤ c ∧ c ≤ 'f' then some (c.toNat - 87)
  else if 'A' ≤ c ∧ c ≤ 'F' then some (c.toNat - 55)
  else none

/-- `_parse_hextet`: one to four hexadecimal digits. -/
def parseHextet (l : List Char) : Option ℕ :=
  if l = [] ∨ 4 < l.length then none
  else (l.mapM hexDigit).map (List.foldl (fun n d => 16 * n + d) 0)

/-- An IPv4 suffix stands for the two hextets it spells. -/
def expandSuffix (parts : List (List Char)) : Option (List (List Char)) :=
  if '.' ∈ parts.getLastD [] then do
    let bits ← v4FromString (parts.getLastD [])
    some (parts.dropLast ++
      [Nat.toDigits 16 (bits.toNat / 65536), Nat.toDigits 16 (bits.toNat % 65536)])
  else some parts

/-- The places of `::`, the ends apart. -/
def skipIndices (parts : List (List Char)) : List ℕ :=
  (List.range parts.length).filter
    (fun i => 0 < i && i + 1 < parts.length && parts[i]? == some [])

/-- The eight hextets of the parts between colons, zeros where `::` stands. An end may
be empty only next to it. -/
def hextets (parts : List (List Char)) : Option (List (List Char)) :=
  match skipIndices parts with
  | [] => if parts.length = 8 then some parts else none
  | [i] =>
    let hi := if parts.head? = some [] then i - 1 else i
    let lo := if parts.getLast? = some [] then parts.length - i - 2 else parts.length - i - 1
    if parts.head? = some [] ∧ hi ≠ 0 then none
    else if parts.getLast? = some [] ∧ lo ≠ 0 then none
    else if 8 ≤ hi + lo then none
    else some (parts.take hi ++ List.replicate (8 - (hi + lo)) ['0'] ++
      parts.drop (parts.length - lo))
  | _ => none

/-- `IPv6Address._ip_from_string`. -/
def v6FromString (l : List Char) : Option (BitVec 128) := do
  if l = [] ∨ 45 < l.length then none
  else if (l.splitOn ':').length < 3 then none
  else
    let parts ← expandSuffix (l.splitOn ':')
    if 9 < parts.length then none
    else
      let values ← (← hextets parts).mapM parseHextet
      some (BitVec.ofNat 128 (values.foldl (fun n h => 65536 * n + h) 0))

/-- An IPv6 address with its scope (`_split_scope_id`). -/
def v6Address (l : List Char) : Option Address :=
  let text := l.takeWhile (· ≠ '%')
  match l.dropWhile (· ≠ '%') with
  | [] => (v6FromString text).map (Address.v6 · none)
  | _ :: scope =>
    if scope = [] ∨ '%' ∈ scope then none
    else (v6FromString text).map (Address.v6 · (some scope))

def v4Address (l : List Char) : Option Address := (v4FromString l).map Address.v4

/-- `_prefix_from_prefix_string`. -/
def prefixFromPrefixString (max : ℕ) (l : List Char) : Option ℕ :=
  if l = [] ∨ l.all Char.isDigit = false then none
  else if max < decimalValue l then none
  else some (decimalValue l)

/-- `_prefix_from_ip_string`: a netmask, else a hostmask, in dotted form. -/
def prefixFromIpString (l : List Char) : Option ℕ := do
  let bits ← v4FromString l
  match (List.range 33).find? (fun p => netmask 32 p = bits) with
  | some p => some p
  | none => (List.range 33).find? (fun p => netmask 32 p = ~~~ bits)

/-- `IPv4Network._make_netmask` on a text. -/
def v4Prefix (l : List Char) : Option ℕ := (prefixFromPrefixString 32 l).or (prefixFromIpString l)

/-- `IPv6Network._make_netmask` on a text. -/
def v6Prefix (l : List Char) : Option ℕ := prefixFromPrefixString 128 l

/-- A network of one version: the address, and the mask after the one `/` allowed. -/
def networkOf (address : List Char → Option Address) (mask : List Char → Option ℕ)
    (l : List Char) : Option Network :=
  match l.splitOn '/' with
  | [a] => (address a).map (fun base => base.network base.maxPrefixlen)
  | [a, m] => do
    let base ← address a
    let p ← mask m
    some (base.network p)
  | _ => none

/-- `ipaddress.ip_network(text, strict=False)`. -/
def ipNetwork (l : List Char) : Option Network :=
  (networkOf v4Address v4Prefix l).or (networkOf v6Address v6Prefix l)

/-- A text writes an address. -/
inductive WritesAddress (l : List Char) : Address → Prop
  | v4 {a} : v4Address l = some a → WritesAddress l a
  | v6 {a} : v6Address l = some a → WritesAddress l a

/-- A text writes the network of an address at a prefix: the address alone, or with a
mask after it. -/
inductive WritesNetwork : List Char → Address → ℕ → Prop
  | alone {l base} : WritesAddress l base → WritesNetwork l base base.maxPrefixlen
  | v4 {l m base p} : v4Address l = some base → v4Prefix m = some p →
      WritesNetwork (l ++ '/' :: m) base p
  | v6 {l m base p} : v6Address l = some base → v6Prefix m = some p →
      WritesNetwork (l ++ '/' :: m) base p

variable {l : List Char} {n : Network}

theorem networkOf_eq_some {address : List Char → Option Address} {mask : List Char → Option ℕ}
    (h : networkOf address mask l = some n) :
    (∃ base, address l = some base ∧ n = base.network base.maxPrefixlen) ∨
      ∃ a m base p, l = a ++ '/' :: m ∧ address a = some base ∧ mask m = some p ∧
        n = base.network p := by
  have hjoin : ['/'].intercalate (l.splitOn '/') = l := List.intercalate_splitOn '/'
  simp only [networkOf] at h
  split at h
  · rename_i a hsplit
    rw [hsplit] at hjoin
    obtain ⟨base, hbase, rfl⟩ := Option.map_eq_some_iff.mp h
    have hl : a = l := by simpa using hjoin
    exact .inl ⟨base, hl ▸ hbase, rfl⟩
  · rename_i a m hsplit
    rw [hsplit] at hjoin
    obtain ⟨base, hbase, h⟩ := Option.bind_eq_some_iff.mp h
    obtain ⟨p, hp, h⟩ := Option.bind_eq_some_iff.mp h
    have hl : l = a ++ '/' :: m := by simpa [List.intercalate] using hjoin.symm
    exact .inr ⟨a, m, base, p, hl, hbase, hp, (Option.some.inj h).symm⟩
  · cases h

/-- What is read as a network is written as one. -/
theorem writesNetwork_of_ipNetwork (h : ipNetwork l = some n) :
    ∃ base p, WritesNetwork l base p ∧ n = base.network p := by
  rw [ipNetwork, Option.or_eq_some_iff] at h
  rcases h with h | ⟨-, h⟩
  · obtain ⟨base, hbase, rfl⟩ | ⟨a, m, base, p, rfl, hbase, hp, rfl⟩ := networkOf_eq_some h
    · exact ⟨base, _, .alone (.v4 hbase), rfl⟩
    · exact ⟨base, p, .v4 hbase hp, rfl⟩
  · obtain ⟨base, hbase, rfl⟩ | ⟨a, m, base, p, rfl, hbase, hp, rfl⟩ := networkOf_eq_some h
    · exact ⟨base, _, .alone (.v6 hbase), rfl⟩
    · exact ⟨base, p, .v6 hbase hp, rfl⟩

/-! Writing texts -/

/-- The text of an IPv4 address. -/
def v4Text (bits : BitVec 32) : List Char :=
  let n := bits.toNat
  let octet := fun k => Nat.toDigits 10 (n / 256 ^ k % 256)
  ['.'].intercalate [octet 3, octet 2, octet 1, octet 0]

/-- The zeros a list of hextets starts with. -/
def zeroRun (l : List (List Char)) : ℕ := (l.takeWhile (· = ['0'])).length

/-- The first longest run of zeros: its start and its length. -/
def longestRun (l : List (List Char)) : ℕ × ℕ :=
  (List.range l.length).foldl
    (fun best i => if best.2 < zeroRun (l.drop i) then (i, zeroRun (l.drop i)) else best) (0, 0)

/-- `_compress_hextets`. -/
def compressHextets (l : List (List Char)) : List (List Char) :=
  let (start, length) := longestRun l
  if length ≤ 1 then l
  else
    (if start = 0 then [[]] else []) ++ l.take start ++ [[]] ++
      l.drop (start + length) ++ (if start + length = l.length then [[]] else [])

/-- `_string_from_ip_int` of an IPv6 address. -/
def hextetText (n : ℕ) : List Char :=
  let hextet := fun k => Nat.toDigits 16 (n / 65536 ^ k % 65536)
  [':'].intercalate (compressHextets ((List.range 8).reverse.map hextet))

/-- The IPv4 address an IPv6 address maps (`ipv4_mapped`). -/
def ipv4Mapped (bits : BitVec 128) : Option (BitVec 32) :=
  if bits.toNat / 2 ^ 32 = 65535 then some (bits.setWidth 32) else none

/-- `str` of an address. -/
def Address.text : Address → List Char
  | .v4 bits => v4Text bits
  | .v6 bits scope =>
    let text := match ipv4Mapped bits with
      | none => hextetText bits.toNat
      | some mapped => hextetText (bits.toNat / 2 ^ 32) ++ ':' :: v4Text mapped
    match scope with
    | none => text
    | some s => text ++ '%' :: s

/-! Global addresses -/

def v4PrivateNetworks : List Network :=
  [.v4 0x00000000 8, .v4 0x0a000000 8, .v4 0x7f000000 8, .v4 0xa9fe0000 16, .v4 0xac100000 12,
    .v4 0xc0000000 24, .v4 0xc00000aa 31, .v4 0xc0000200 24, .v4 0xc0a80000 16,
    .v4 0xc6120000 15, .v4 0xc6336400 24, .v4 0xcb007100 24, .v4 0xf0000000 4,
    .v4 0xffffffff 32]

def v4PrivateExceptions : List Network := [.v4 0xc0000009 32, .v4 0xc000000a 32]

/-- Shared address space, neither private nor global. -/
def v4SharedNetwork : Network := .v4 0x64400000 10

def v6PrivateNetworks : List Network :=
  [.v6 0x00000000000000000000000000000001 none 128, .v6 0 none 128,
    .v6 0x00000000000000000000ffff00000000 none 96,
    .v6 0x0064ff9b000100000000000000000000 none 48,
    .v6 0x01000000000000000000000000000000 none 64,
    .v6 0x20010000000000000000000000000000 none 23,
    .v6 0x20010db8000000000000000000000000 none 32,
    .v6 0x20020000000000000000000000000000 none 16,
    .v6 0x3fff0000000000000000000000000000 none 20,
    .v6 0xfc000000000000000000000000000000 none 7,
    .v6 0xfe800000000000000000000000000000 none 10]

def v6PrivateExceptions : List Network :=
  [.v6 0x20010001000000000000000000000001 none 128,
    .v6 0x20010001000000000000000000000002 none 128,
    .v6 0x20010003000000000000000000000000 none 32,
    .v6 0x20010004011200000000000000000000 none 48,
    .v6 0x20010020000000000000000000000000 none 28,
    .v6 0x20010030000000000000000000000000 none 28]

def isPrivateIn (networks exceptions : List Network) (a : Address) : Bool :=
  networks.any (·.contains a) && !exceptions.any (·.contains a)

def v4IsGlobal (bits : BitVec 32) : Bool :=
  !v4SharedNetwork.contains (.v4 bits) &&
    !isPrivateIn v4PrivateNetworks v4PrivateExceptions (.v4 bits)

/-- `is_global`; a mapped address is what it maps. -/
def Address.isGlobal : Address → Bool
  | .v4 bits => v4IsGlobal bits
  | .v6 bits scope =>
    match ipv4Mapped bits with
    | some mapped => v4IsGlobal mapped
    | none => !isPrivateIn v6PrivateNetworks v6PrivateExceptions (.v6 bits scope)

@[simp]
theorem contains_unscoped (n : Network) (a : Address) : n.contains a.unscoped = n.contains a := by
  cases n <;> cases a <;> rfl

theorem isPrivateIn_unscoped (networks exceptions : List Network) (a : Address) :
    isPrivateIn networks exceptions a.unscoped = isPrivateIn networks exceptions a := by
  simp [isPrivateIn]

@[simp]
theorem isGlobal_unscoped (a : Address) : a.unscoped.isGlobal = a.isGlobal := by
  cases a with
  | v4 bits => rfl
  | v6 bits scope =>
    have hprivate := isPrivateIn_unscoped v6PrivateNetworks v6PrivateExceptions (.v6 bits scope)
    simp only [Address.unscoped] at hprivate ⊢
    simp only [Address.isGlobal, hprivate]

end Grafy.Addresses
