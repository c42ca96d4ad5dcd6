/-
# Address ranges (`src/vnm/AddressRange.cc`, `src/vnm/AddressRangeInternal.cc`)

An address range hands out the addresses that start at a MAC, an IPv4 and an IPv6 address.  An
address is known by its index in the range, and the map `allocated` has, for each index in use, the
set of its owners.  Ranges are shared (an address may have several owners) or not, and their free
addresses are looked up by OpenNebula itself (`AddressRangeInternal`) or by an external driver
(`AddressRangeIPAM`).

Conventions of the embedding:

* The words of an address are 32-bit numbers, and additions wrap around.  Indexes are natural
  numbers below `2 ^ 32`, sizes below `2 ^ 64`.
* `allocated` is a finite set of pairs of an index and an owner.  No entry of the map of the source
  is ever left with an empty set of owners, so this is the same thing; the number of entries of the
  map is `usedAddr`.
* A set of attributes (`VectorAttribute`) is a function, and a missing attribute has an empty text.
* What a call gets from outside is in `ArEnv`: the conversions of IPv6 addresses of the C library,
  the configured prefix, a random number, the contents of a variable that is not initialised, and
  the answers of the IPAM driver.
* A call on an object that fails after it has changed some of its fields returns the changed object
  with the error.
-/
import OpenNebula.TextNumber
import OpenNebula.PoolObject

open TextNumber

/-! ## Attributes -/

/-- The names of the attributes of ranges and network interfaces. -/
inductive AttrName where
  | type | shared | ipamMad | ip | ip6 | globalPrefix | ulaPrefix | prefixLength | size | mac
  | portStart | portSize | arId | allocated | usedLeases | leases | parentNetworkArId
  | parentNetwork | macEnd | ipEnd | ip6End | ip6Link | ip6Ula | ip6UlaEnd | ip6Global
  | ip6GlobalEnd | externalPortRange | internalPortRange | vnMad | bridge | phydev | vlanId
  | other (name : ℕ)
  deriving DecidableEq

/-- `VectorAttribute`. -/
abbrev VectorAttribute := AttrName → Text

namespace VectorAttribute

/-- `VectorAttribute::replace`. -/
def replace (va : VectorAttribute) (name : AttrName) (value : Text) : VectorAttribute :=
  Function.update va name value

@[simp]
theorem replace_self (va : VectorAttribute) (name : AttrName) (value : Text) :
    va.replace name value name = value := by
  rw [replace, Function.update_self]

theorem replace_of_ne (va : VectorAttribute) {name n : AttrName} (value : Text) (h : n ≠ name) :
    va.replace name value n = va n := by
  rw [replace, Function.update_of_ne h]

/-- `VectorAttribute::remove`. -/
def remove (va : VectorAttribute) (name : AttrName) : VectorAttribute := va.replace name []

/-- `VectorAttribute::replace` with a Boolean. -/
def replaceBool (va : VectorAttribute) (name : AttrName) (value : Bool) : VectorAttribute :=
  va.replace name (if value then "YES".toList else "NO".toList)

/-- `VectorAttribute::replace` with a number. -/
def replaceNat (va : VectorAttribute) (name : AttrName) (value : ℕ) : VectorAttribute :=
  va.replace name (Nat.toDigits 10 value)

/-- `VectorAttribute::vector_value` for an unsigned type. -/
def unsignedValue (va : VectorAttribute) (name : AttrName) (width : ℕ) : Option ℕ :=
  if va name = [] then none
  else if (skipWs (va name)).head? = some '-' then none
  else
    let e := getUnsigned 10 width (va name)
    if e.ok && e.rest.isEmpty then some e.value else none

/-- `VectorAttribute::vector_value` for `int`. -/
def intValue (va : VectorAttribute) (name : AttrName) : Option ℤ :=
  if va name = [] then none
  else
    let e := getSigned 10 32 (va name)
    if e.ok && e.rest.isEmpty then some e.value else none

/-- `VectorAttribute::vector_value` for a Boolean: `icasecmp` with `YES`. -/
def boolValue (va : VectorAttribute) (name : AttrName) : Option Bool :=
  if va name = [] then none else some ((va name).map Char.toUpper = "YES".toList)

end VectorAttribute

/-! ## Addresses and their texts -/

/-- `AddressRange::AddressType`. -/
inductive AddressType where
  | none | ether | ip4 | ip6 | ip6Static | ip46 | ip46Static
  deriving DecidableEq, Repr

namespace AddressType

/-- `AddressRange::str_to_type`. -/
def ofText (s : Text) : AddressType :=
  let s := s.map Char.toUpper
  if s = "ETHER".toList then .ether
  else if s = "IP4".toList then .ip4
  else if s = "IP6".toList then .ip6
  else if s = "IP4_6".toList then .ip46
  else if s = "IP4_6_STATIC".toList then .ip46Static
  else if s = "IP6_STATIC".toList then .ip6Static
  else .none

/-- `AddressRange::is_ipv4`. -/
def isIpv4 : AddressType → Bool
  | .ip4 | .ip46 | .ip46Static => true
  | _ => false

/-- `AddressRange::is_ipv6`. -/
def isIpv6 : AddressType → Bool
  | .ip6 | .ip46 => true
  | _ => false

/-- `AddressRange::is_ipv6_static`. -/
def isIpv6Static : AddressType → Bool
  | .ip6Static | .ip46Static => true
  | _ => false

end AddressType

/-- The two words of a MAC address, `mac[0]` and `mac[1]`. -/
structure Mac where
  lo : UInt32
  hi : UInt32
  deriving DecidableEq, Repr

/-- The two words of an IPv6 prefix. -/
structure Prefix6 where
  lo : UInt32
  hi : UInt32
  deriving DecidableEq, Repr

/-- The four words of an IPv6 address, the lowest first. -/
structure Ip6 where
  w0 : UInt32
  w1 : UInt32
  w2 : UInt32
  w3 : UInt32
  deriving DecidableEq, Repr

/-- The conversions of IPv6 addresses of the C library. -/
structure Inet6 where
  /-- `inet_pton(AF_INET6, ..)`. -/
  pton : Text → Option Ip6
  /-- `inet_ntop(AF_INET6, ..)`. -/
  ntop : Ip6 → Text

/-- What a call gets from outside. -/
structure ArEnv where
  inet : Inet6
  /-- `VirtualNetworkPool::mac_prefix`. -/
  macPrefix : UInt32
  /-- `one_util::random`. -/
  random : UInt32
  /-- What is in the variable `tmp` of `mac_to_i` before it is read. -/
  junk : UInt32
  /-- The answers of the IPAM driver to `allocate_addr`, `get_addr` and `free_addr`. -/
  ipamAllocate : Bool
  ipamGet : Option Text
  ipamFree : ℕ → Bool

/-- `00:00:00:00:00:00`. -/
def zeroMac : Text :=
  "00:00:00:00:00:00".toList

/-- A byte with two hexadecimal digits. -/
def hexByte (b : ℕ) : Text := [(b / 16 % 16).digitChar, (b % 16).digitChar]

/-- The `k`-th byte of a word. -/
def byteOf (w : UInt32) (k : ℕ) : ℕ := w.toNat / 256 ^ k % 256

/-- `AddressRange::mac_to_s`. -/
def macToS (m : Mac) : Text :=
  if m.lo = 0 ∧ m.hi = 0 then zeroMac
  else
    List.intercalate [':'] [hexByte (byteOf m.hi 1), hexByte (byteOf m.hi 0),
      hexByte (byteOf m.lo 3), hexByte (byteOf m.lo 2), hexByte (byteOf m.lo 1),
      hexByte (byteOf m.lo 0)]

/-- The words that `AddressRange::mac_to_i` reads: six hexadecimal numbers, whatever their size.
After a failed extraction `tmp` keeps its value. -/
def macWords (junk : UInt32) (s : Text) : Mac :=
  let s := s.map (fun c => if c = ':' then ' ' else c)
  let (hi, st) := extract 16 32 0 (some s)
  let (tmp, st) := extract 16 32 junk.toNat st
  let next := fun (p : UInt32 × ℕ × Option Text) =>
    let (tmp, st) := extract 16 32 p.2.1 p.2.2
    (p.1 * 256 + UInt32.ofNat tmp, tmp, st)
  ⟨(next (next (next (next (0, tmp, st))))).1, UInt32.ofNat hi * 256 + UInt32.ofNat tmp⟩

/-- `AddressRange::mac_to_i`: the text is not checked beyond its five colons. -/
def macToI (junk : UInt32) (s : Text) : Option Mac :=
  if s = [] ∨ s = zeroMac then some ⟨0, 0⟩
  else if s.count ':' ≠ 5 then none
  else some (macWords junk s)

/-- `AddressRange::ip_to_s`. -/
def ipToS (ip : UInt32) : Text :=
  List.intercalate ['.'] [Nat.toDigits 10 (byteOf ip 3), Nat.toDigits 10 (byteOf ip 2),
    Nat.toDigits 10 (byteOf ip 1), Nat.toDigits 10 (byteOf ip 0)]

/-- The loop of `AddressRange::ip_to_i` over the remaining bytes. -/
def ipLoop : ℕ → UInt32 → Text → Option UInt32
  | 0, ip, _ => some ip
  | n + 1, ip, s =>
    let e := getUnsigned 10 32 s
    if 255 < e.value ∨ e.ok = false then none
    else ipLoop n (ip * 256 + UInt32.ofNat e.value) e.rest

/-- `AddressRange::ip_to_i`. -/
def ipToI (s : Text) : Option UInt32 :=
  if s.any (fun c => !(isDigitOf 10 c || c == '.')) then none
  else if s.count '.' ≠ 3 then none
  else ipLoop 4 0 (s.map (fun c => if c = '.' then ' ' else c))

namespace Inet6

/-- `AddressRange::ip6_to_i`. -/
def ip6ToI (inet : Inet6) (s : Text) : Option Ip6 := if s = [] then none else inet.pton s

/-- `AddressRange::prefix6_to_i`. -/
def prefix6ToI (inet : Inet6) (s : Text) : Option Prefix6 :=
  if s = [] then some ⟨0, 0⟩ else (inet.pton s).map (fun a => ⟨a.w2, a.w3⟩)

/-- `AddressRange::ip6_to_s` with a prefix and a MAC address. -/
def ip6OfMac (inet : Inet6) (p : Prefix6) (m : Mac) : Text :=
  inet.ntop
    { w3 := p.hi
      w2 := p.lo
      w1 := (m.hi ^^^ 0x0200) * 65536 + (m.lo &&& 0xFF000000) / 65536 + 0x000000FF
      w0 := 4261412864 + (m.lo &&& 0x00FFFFFF) }

end Inet6

/-! ## The range -/

/-- `AddressRange`. -/
structure AddressRange where
  attr : VectorAttribute
  id : ℕ
  type : AddressType
  shared : Bool
  size : ℕ
  ip : UInt32
  mac : Mac
  global6 : Prefix6
  ula6 : Prefix6
  ip6 : Ip6
  portStart : ℕ
  portSize : ℕ
  /-- The object is an `AddressRangeIPAM`. -/
  ipam : Bool
  /-- `AddressRangeInternal::next`. -/
  next : UInt32
  allocated : Finset (ℕ × ℤ)

/-- The owner of an address as one number: its type and its identifier. -/
def packOwner (ot : ObjectType) (obid : ℤ) : ℤ := ((ot.code ||| (obid % 2 ^ 32).toNat : ℕ) : ℤ)

namespace AddressRange

/-- The indexes in use. -/
def usedIndexes (ar : AddressRange) : Finset ℕ := ar.allocated.image Prod.fst

/-- `AddressRange::get_used_addr`. -/
def usedAddr (ar : AddressRange) : ℕ := ar.usedIndexes.card

/-- `AddressRange::get_free_addr`, on 64-bit unsigned numbers. -/
def freeAddrs (ar : AddressRange) : ℕ := (ar.size + 2 ^ 64 - ar.usedAddr % 2 ^ 64) % 2 ^ 64

/-- A new object. -/
def new (id : ℕ) (ipam : Bool) : AddressRange where
  attr := fun _ => []
  id := id
  type := .none
  shared := false
  size := 0
  ip := 0
  mac := ⟨0, 0⟩
  global6 := ⟨0, 0⟩
  ula6 := ⟨0, 0⟩
  ip6 := ⟨0, 0, 0, 0⟩
  portStart := 0
  portSize := 0
  ipam := ipam
  next := 0
  allocated := ∅

/-! ### Addresses of an interface -/

/-- `AddressRange::set_mac`. -/
def setMac (ar : AddressRange) (index : ℕ) (nic : VectorAttribute) : VectorAttribute :=
  nic.replace .mac (macToS ⟨ar.mac.lo + UInt32.ofNat index, ar.mac.hi⟩)

/-- `AddressRange::set_ip`. -/
def setIp (ar : AddressRange) (index : ℕ) (nic : VectorAttribute) : VectorAttribute :=
  nic.replace .ip (ipToS (ar.ip + UInt32.ofNat index))

/-- `AddressRange::set_ip6`. -/
def setIp6 (ar : AddressRange) (env : ArEnv) (index : ℕ) (nic : VectorAttribute) :
    VectorAttribute :=
  let m : Mac := ⟨ar.mac.lo + UInt32.ofNat index, ar.mac.hi⟩
  let nic := nic.replace .ip6Link (env.inet.ip6OfMac ⟨0, 0xfe800000⟩ m)
  let nic := if ar.ula6.hi ≠ 0 ∨ ar.ula6.lo ≠ 0 then
    nic.replace .ip6Ula (env.inet.ip6OfMac ar.ula6 m) else nic
  if ar.global6.hi ≠ 0 ∨ ar.global6.lo ≠ 0 then
    nic.replace .ip6Global (env.inet.ip6OfMac ar.global6 m) else nic

/-- `AddressRange::set_ip6_static`. -/
def setIp6Static (ar : AddressRange) (env : ArEnv) (index : ℕ) (nic : VectorAttribute) :
    VectorAttribute :=
  nic.replace .ip6 (env.inet.ntop { ar.ip6 with w0 := ar.ip6.w0 + UInt32.ofNat index })

/-- `AddressRange::set_port_ranges`. -/
def setPortRanges (ar : AddressRange) (index : ℕ) (nic : VectorAttribute) : VectorAttribute :=
  if ar.portSize = 0 ∨ ar.portStart = 0 then nic
  else
    let ini := (ar.portStart + index * ar.portSize + 1) % 2 ^ 32
    let fin := (ini + ar.portSize - 1) % 2 ^ 32
    let nic := nic.replace .externalPortRange
      (Nat.toDigits 10 ini ++ [':'] ++ Nat.toDigits 10 fin)
    nic.replace .internalPortRange
      ("1-".toList ++ Nat.toDigits 10 ar.portSize ++ ['/'] ++ Nat.toDigits 10 ini)

/-- `AddressRange::set_vnet`; `inherit` has the names of the inherited attributes. -/
def setVnet (ar : AddressRange) (inherit : List AttrName) (nic : VectorAttribute) :
    VectorAttribute :=
  let nic := nic.replaceNat .arId ar.id
  let nic := [AttrName.vnMad, .bridge, .phydev, .vlanId].foldl
    (fun nic name => if ar.attr name = [] then nic else nic.replace name (ar.attr name)) nic
  inherit.foldl (fun nic name =>
    if nic name = [] ∧ ar.attr name ≠ [] then nic.replace name (ar.attr name) else nic) nic

/-- The addresses that `allocate_by_index` and the reservations write, apart from the MAC. -/
def setAddresses (ar : AddressRange) (env : ArEnv) (index : ℕ) (slaac : Bool)
    (nic : VectorAttribute) : VectorAttribute :=
  let nic := ar.setPortRanges index nic
  let nic := if ar.type.isIpv4 then ar.setIp index nic else nic
  let nic := if slaac && ar.type.isIpv6 then ar.setIp6 env index nic else nic
  if ar.type.isIpv6Static then ar.setIp6Static env index nic else nic

/-! ### Initialisation -/

/-- The steps of an initialisation stop at the first error. -/
def andThen (r : AddressRange × Option String)
    (f : AddressRange → AddressRange × Option String) : AddressRange × Option String :=
  match r.2 with
  | some _ => r
  | none => f r.1

/-- `AddressRange::init_ipv4`. -/
def initIpv4 (ar : AddressRange) : AddressRange × Option String :=
  if ar.type.isIpv4 then
    match (if ar.attr .ip = [] then none else ipToI (ar.attr .ip)) with
    | some ip => ({ ar with ip := ip }, none)
    | none => (ar, some "Wrong or empty IP attribute")
  else ({ ar with attr := ar.attr.remove .ip }, none)

/-- `AddressRange::init_ipv6`. -/
def initIpv6 (env : ArEnv) (ar : AddressRange) : AddressRange × Option String :=
  if ar.type.isIpv6 then
    match env.inet.prefix6ToI (ar.attr .globalPrefix) with
    | none => (ar, some "Wrong format for IP6 global address prefix")
    | some global6 =>
      let ar := { ar with global6 := global6 }
      match env.inet.prefix6ToI (ar.attr .ulaPrefix) with
      | none => (ar, some "Wrong format for IP6 unique local address prefix")
      | some ula6 => ({ ar with ula6 := ula6 }, none)
  else ({ ar with attr := (ar.attr.remove .globalPrefix).remove .ulaPrefix }, none)

/-- The size of a static IPv6 range that is not given: up to the end of the prefix. -/
def sizeOfPrefix (pl : ℤ) (ip6 : Ip6) : ℕ :=
  let s := if pl ≤ 64 then 2 ^ 64 - 1 else 2 ^ (((128 - pl) % 64).toNat)
  let mask := if pl ≤ 64 then s else s - 1
  let first := (ip6.w1.toNat * 2 ^ 32 + ip6.w0.toNat) &&& mask
  (s + 2 ^ 64 - first) % 2 ^ 64

/-- `AddressRange::init_ipv6_static`. -/
def initIpv6Static (env : ArEnv) (ar : AddressRange) : AddressRange × Option String :=
  if ar.type.isIpv6Static then
    match env.inet.ip6ToI (ar.attr .ip6) with
    | none => (ar, some "Wrong or empty IP6 attribute")
    | some ip6 =>
      let ar := { ar with ip6 := ip6 }
      match ar.attr.intValue .prefixLength with
      | none => (ar, some "Wrong or empty PREFIX_LENGTH")
      | some pl =>
        if ar.attr .size = [] then
          ({ ar with attr := ar.attr.replaceNat .size (sizeOfPrefix pl ip6) }, none)
        else (ar, none)
  else ({ ar with attr := ar.attr.remove .ip6 }, none)

/-- `AddressRange::init_mac`. -/
def initMac (env : ArEnv) (ar : AddressRange) : AddressRange × Option String :=
  if ar.shared then
    let ar := { ar with mac := ⟨0, 0⟩ }
    ({ ar with attr := ar.setMac 0 ar.attr }, none)
  else if ar.attr .mac = [] then
    let ar := { ar with mac := ⟨if ar.type.isIpv4 then ar.ip else env.random, env.macPrefix⟩ }
    ({ ar with attr := ar.setMac 0 ar.attr }, none)
  else
    match macToI env.junk (ar.attr .mac) with
    | some mac => ({ ar with mac := mac }, none)
    | none => (ar, some "Wrong format for MAC attribute")

/-- The type and the sharing of a range. -/
def initType (ar : AddressRange) : AddressRange × Option String :=
  let ar := { ar with type := AddressType.ofText (ar.attr .type) }
  if ar.type = .none then (ar, some "Unknown or missing address range TYPE.")
  else
    let ar := { ar with shared := (ar.attr.boolValue .shared).getD false }
    let ar := { ar with attr := ar.attr.replaceBool .shared ar.shared }
    if ar.shared then
      if ar.type ≠ .ip4 ∧ ar.type ≠ .ip6Static then
        (ar, some "Shared ARs can be only of type IP4 or IP6_STATIC.")
      else if ar.attr .ipamMad ≠ [] ∧ ar.attr .ipamMad ≠ "internal".toList then
        (ar, some "Shared ARs cannot use an external IPAM")
      else (ar, none)
    else (ar, none)

/-- The size, the ports and the attributes that `from_attr` sets itself. -/
def initSize (ar : AddressRange) : AddressRange × Option String :=
  match ar.attr.unsignedValue .size 64 with
  | none => (ar, some "Wrong SIZE for address range")
  | some size =>
    let attr := ar.attr.replaceNat .arId ar.id
    ({ ar with
      size := size
      portStart := (ar.attr.unsignedValue .portStart 32).getD 0
      portSize := (ar.attr.unsignedValue .portSize 32).getD 0
      attr := [AttrName.allocated, .usedLeases, .leases, .parentNetworkArId, .parentNetwork].foldl
        VectorAttribute.remove attr }, none)

/-- `AddressRange::from_attr`. -/
def fromAttr (ar : AddressRange) (env : ArEnv) (vattr : VectorAttribute) :
    AddressRange × Option String :=
  let r := initType { ar with attr := vattr }
  let r := andThen r initIpv4
  let r := andThen r (initIpv6 env)
  let r := andThen r (initIpv6Static env)
  let r := andThen r (initMac env)
  andThen r initSize

/-! ### The attribute `ALLOCATED` -/

/-- The leases in the order of the map: by index, then by owner. -/
def leases (ar : AddressRange) : List (ℕ × ℤ) :=
  (ar.allocated.map toLex.toEmbedding).sort.map ofLex

/-- The text of an owner. -/
def ownerText (owner : ℤ) : Text :=
  if owner < 0 then '-' :: Nat.toDigits 10 owner.natAbs else Nat.toDigits 10 owner.natAbs

/-- The text of `AddressRange::allocated_to_attr`. -/
def leasesText (leases : List (ℕ × ℤ)) : Text :=
  leases.flatMap (fun l => [' '] ++ Nat.toDigits 10 l.1 ++ [' '] ++ ownerText l.2)

/-- `AddressRange::allocated_to_attr`. -/
def allocatedToAttr (ar : AddressRange) : AddressRange :=
  { ar with attr := ar.attr.replace .allocated (leasesText ar.leases) }

/-- The loop of `AddressRange::attr_to_allocated`: it ends when an extraction fails, with what is
left of the text.  Each turn takes at least one character. -/
def readLeases : ℕ → Text → Finset (ℕ × ℤ) → Finset (ℕ × ℤ) × Text
  | 0, s, m => (m, s)
  | n + 1, s, m =>
    let i := getUnsigned 10 32 (skipWs s)
    if i.ok then
      let o := getSigned 10 64 (skipWs i.rest)
      if o.ok then readLeases n o.rest (insert (i.value, o.value) m) else (m, o.rest)
    else (m, i.rest)

/-- `AddressRange::attr_to_allocated`. -/
def attrToAllocated (ar : AddressRange) (s : Text) : AddressRange × Bool :=
  if s = [] then ({ ar with allocated := ∅ }, true)
  else
    let (m, rest) := readLeases s.length s ar.allocated
    let ar := { ar with allocated := m }
    (ar, rest.isEmpty && decide (ar.usedAddr ≤ ar.size))

/-- The result of a conversion, or the old value. -/
def loaded {α : Type*} (o : Option α) (old : α) : α × Bool := (o.getD old, o.isSome)

/-- `AddressRange::from_vattr_db`: every attribute is loaded, and the result says whether all of
them could be. -/
def fromVattrDb (ar : AddressRange) (env : ArEnv) (vattr : VectorAttribute) :
    AddressRange × Bool :=
  let (id, okId) := loaded (vattr.unsignedValue .arId 32) ar.id
  let type := AddressType.ofText (vattr .type)
  let shared := vattr.boolValue .shared
  let vattr := if shared = none then vattr.replaceBool .shared false else vattr
  let (size, okSize) := loaded (vattr.unsignedValue .size 64) ar.size
  let (mac, okMac) := loaded (macToI env.junk (vattr .mac)) ar.mac
  let (ip, okIp) := if type.isIpv4 then loaded (ipToI (vattr .ip)) ar.ip else (ar.ip, true)
  let (ip6, okIp6) :=
    if type.isIpv6Static then loaded (env.inet.ip6ToI (vattr .ip6)) ar.ip6 else (ar.ip6, true)
  let (global6, okGlobal) := loaded (env.inet.prefix6ToI (vattr .globalPrefix)) ar.global6
  let (ula6, okUla) := loaded (env.inet.prefix6ToI (vattr .ulaPrefix)) ar.ula6
  let ar : AddressRange :=
    { ar with
      attr := vattr
      id := id
      type := type
      shared := shared.getD false
      size := size
      mac := mac
      ip := ip
      ip6 := ip6
      global6 := global6
      ula6 := ula6
      portStart := (vattr.unsignedValue .portStart 32).getD 0
      portSize := (vattr.unsignedValue .portSize 32).getD 0 }
  let (ar, okAllocated) := ar.attrToAllocated (vattr .allocated)
  (ar, okId && okSize && okMac && okIp && okIp6 && okGlobal && okUla && okAllocated &&
    decide (type ≠ .none))

/-! ### Lookup of an address -/

/-- The last checks of the three lookups. -/
def checkIndex (ar : AddressRange) (index : ℕ) (checkFree : Bool) : Option ℕ :=
  if (checkFree = true ∧ index ∈ ar.usedIndexes) ∨ ar.size ≤ index then none else some index

/-- `AddressRange::is_valid_mac`. -/
def isValidMac (ar : AddressRange) (env : ArEnv) (s : Text) (checkFree : Bool) : Option ℕ :=
  match macToI env.junk s with
  | none => none
  | some m =>
    if m.hi ≠ ar.mac.hi ∨ m.lo < ar.mac.lo then none
    else ar.checkIndex (m.lo - ar.mac.lo).toNat checkFree

/-- `AddressRange::is_valid_ip`. -/
def isValidIp (ar : AddressRange) (s : Text) (checkFree : Bool) : Option ℕ :=
  if ar.type.isIpv4 then
    match ipToI s with
    | none => none
    | some ip => if ip < ar.ip then none else ar.checkIndex (ip - ar.ip).toNat checkFree
  else none

/-- `AddressRange::is_valid_ip6`. -/
def isValidIp6 (ar : AddressRange) (env : ArEnv) (s : Text) (checkFree : Bool) : Option ℕ :=
  if ar.type.isIpv6Static then
    match env.inet.ip6ToI s with
    | none => none
    | some a =>
      if a.w3 ≠ ar.ip6.w3 ∨ a.w2 ≠ ar.ip6.w2 ∨ a.w1 ≠ ar.ip6.w1 ∨ a.w0 < ar.ip6.w0 then none
      else ar.checkIndex (a.w0 - ar.ip6.w0).toNat checkFree
  else none

/-! ### Free addresses -/

/-- The loop of `AddressRangeInternal::get_single_addr`: the address found and the new `next`. -/
def singleLoop (used : Finset ℕ) (arSize : ℕ) : ℕ → ℕ → Option ℕ × ℕ
  | 0, next => (none, next)
  | n + 1, next =>
    if next ∈ used then singleLoop used arSize n ((next + 1) % 2 ^ 32 % arSize)
    else (some next, next)

/-- The inner loop of `AddressRangeInternal::get_range_addr`: whether the addresses are all free
and in the range, and the index it has come to. -/
def rangeInner (used : Finset ℕ) (arSize : ℕ) : ℕ → ℕ → Bool × ℕ
  | 0, i => (true, i)
  | n + 1, i =>
    if i ∈ used ∨ arSize ≤ i then (false, i) else rangeInner used arSize n ((i + 1) % 2 ^ 32)

/-- The outer loop of `AddressRangeInternal::get_range_addr`. -/
def rangeLoop (used : Finset ℕ) (arSize rsize : ℕ) : ℕ → ℕ → Option ℕ
  | 0, _ => none
  | n + 1, i =>
    if i < arSize then
      if i ∈ used then rangeLoop used arSize rsize n ((i + 1) % 2 ^ 32)
      else
        match rangeInner used arSize rsize i with
        | (true, j) => some ((j + 2 ^ 32 - rsize) % 2 ^ 32)
        | (false, j) => rangeLoop used arSize rsize n ((j + 1) % 2 ^ 32)
    else none

/-- `get_addr` of an internal range (by `get_single_addr` and `get_range_addr`) and of an IPAM
range. -/
def getAddr (ar : AddressRange) (env : ArEnv) (rsize : ℕ) : AddressRange × Option ℕ :=
  let arSize := ar.size % 2 ^ 32
  if ar.ipam then
    match env.ipamGet with
    | none => (ar, none)
    | some ip =>
      match ar.isValidIp ip false with
      | none => (ar, none)
      | some index =>
        (ar, if (rangeInner ar.usedIndexes arSize rsize index).1 then some index else none)
  else if rsize = 1 then
    let r := singleLoop ar.usedIndexes arSize arSize ar.next.toNat
    ({ ar with next := UInt32.ofNat r.2 }, r.1)
  else (ar, rangeLoop ar.usedIndexes arSize rsize arSize 0)

/-- The virtual `allocate_addr(index, rsize)`. -/
def allocateIndex (ar : AddressRange) (env : ArEnv) : Bool := !ar.ipam || env.ipamAllocate

/-- The virtual `free_addr(index)`. -/
def freeIndex (ar : AddressRange) (env : ArEnv) (index : ℕ) : Bool :=
  !ar.ipam || env.ipamFree index

/-! ### Allocation -/

/-- `AddressRange::set_allocated_addr` for some indexes. -/
def setAllocated (ar : AddressRange) (owner : ℤ) (indexes : List ℕ) : AddressRange :=
  indexes.foldl (fun ar i => allocatedToAttr { ar with allocated := insert (i, owner) ar.allocated })
    ar

/-- `AddressRange::allocate_by_index`. -/
def allocateByIndex (ar : AddressRange) (env : ArEnv) (index : ℕ) (ot : ObjectType) (obid : ℤ)
    (inherit : List AttrName) (nic : VectorAttribute) : AddressRange × VectorAttribute :=
  let nic :=
    if ar.shared then
      (nic.replace .mac (macToS ⟨env.random, env.macPrefix⟩)).replace .shared "YES".toList
    else ar.setMac index nic
  let nic := ar.setAddresses env index true nic
  (ar.setAllocated (packOwner ot obid) [index], ar.setVnet inherit nic)

/-- The end of the three functions that allocate a given address. -/
def allocateFound (ar : AddressRange) (env : ArEnv) (found : Option ℕ) (ot : ObjectType) (obid : ℤ)
    (inherit : List AttrName) (nic : VectorAttribute) : AddressRange × Option VectorAttribute :=
  match found with
  | none => (ar, none)
  | some index =>
    if ar.allocateIndex env then
      let (ar, nic) := ar.allocateByIndex env index ot obid inherit nic
      (ar, some nic)
    else (ar, none)

/-- `AddressRange::allocate_addr`: the interface, or `none` for the error. -/
def allocateAddr (ar : AddressRange) (env : ArEnv) (ot : ObjectType) (obid : ℤ)
    (inherit : List AttrName) (nic : VectorAttribute) : AddressRange × Option VectorAttribute :=
  if ar.shared ∨ ar.size ≤ ar.usedAddr then (ar, none)
  else
    match ar.getAddr env 1 with
    | (ar, none) => (ar, none)
    | (ar, some index) =>
      let (ar, nic) := ar.allocateByIndex env index ot obid inherit nic
      (ar, some nic)

/-- `AddressRange::allocate_by_mac`. -/
def allocateByMac (ar : AddressRange) (env : ArEnv) (mac : Text) (ot : ObjectType) (obid : ℤ)
    (inherit : List AttrName) (nic : VectorAttribute) : AddressRange × Option VectorAttribute :=
  ar.allocateFound env (if ar.shared then none else ar.isValidMac env mac true) ot obid inherit nic

/-- `AddressRange::allocate_by_ip`. -/
def allocateByIp (ar : AddressRange) (env : ArEnv) (ip : Text) (ot : ObjectType) (obid : ℤ)
    (inherit : List AttrName) (nic : VectorAttribute) : AddressRange × Option VectorAttribute :=
  ar.allocateFound env (ar.isValidIp ip (!ar.shared)) ot obid inherit nic

/-- `AddressRange::allocate_by_ip6`. -/
def allocateByIp6 (ar : AddressRange) (env : ArEnv) (ip6 : Text) (ot : ObjectType) (obid : ℤ)
    (inherit : List AttrName) (nic : VectorAttribute) : AddressRange × Option VectorAttribute :=
  ar.allocateFound env (ar.isValidIp6 env ip6 (!ar.shared)) ot obid inherit nic

/-- The end of the functions that hold an address, for the virtual machine `-1`. -/
def holdFound (ar : AddressRange) (env : ArEnv) (found : Option ℕ) : AddressRange × Bool :=
  match found with
  | none => (ar, false)
  | some index =>
    if ar.allocateIndex env then (ar.setAllocated (packOwner .vm (-1)) [index], true)
    else (ar, false)

/-- `AddressRange::hold_by_mac`. -/
def holdByMac (ar : AddressRange) (env : ArEnv) (mac : Text) : AddressRange × Bool :=
  ar.holdFound env (if ar.shared then none else ar.isValidMac env mac true)

/-- `AddressRange::hold_by_ip`. -/
def holdByIp (ar : AddressRange) (env : ArEnv) (ip : Text) : AddressRange × Bool :=
  ar.holdFound env (ar.isValidIp ip true)

/-- `AddressRange::hold_by_ip6`. -/
def holdByIp6 (ar : AddressRange) (env : ArEnv) (ip6 : Text) : AddressRange × Bool :=
  ar.holdFound env (ar.isValidIp6 env ip6 true)

/-! ### Release -/

/-- `AddressRange::free_allocated_addr`. -/
def freeAllocated (ar : AddressRange) (owner : ℤ) (index : ℕ) : AddressRange × Bool :=
  if (index, owner) ∈ ar.allocated then
    (allocatedToAttr { ar with allocated := ar.allocated.erase (index, owner) }, true)
  else (ar, false)

/-- The end of the functions that free one address: the index, if it was in bounds. -/
def freeFound (ar : AddressRange) (env : ArEnv) (found : Option ℕ) (ot : ObjectType) (obid : ℤ) :
    AddressRange × Bool :=
  match found with
  | none => (ar, false)
  | some index =>
    if ar.freeIndex env index then ar.freeAllocated (packOwner ot obid) index else (ar, false)

/-- `AddressRange::free_addr`: only the low word is compared, and a text that is not a MAC leaves
the words as they are, not initialised. -/
def freeAddr (ar : AddressRange) (env : ArEnv) (ot : ObjectType) (obid : ℤ) (mac : Text) :
    AddressRange × Bool :=
  let m := (macToI env.junk mac).getD ⟨env.junk, env.junk⟩
  let index := (m.lo - ar.mac.lo).toNat
  ar.freeFound env (if mac = [] ∨ m.lo < ar.mac.lo ∨ ar.size ≤ index then none else some index)
    ot obid

/-- `AddressRange::free_addr_by_ip`. -/
def freeAddrByIp (ar : AddressRange) (env : ArEnv) (ot : ObjectType) (obid : ℤ) (ip : Text) :
    AddressRange × Bool :=
  ar.freeFound env (ar.isValidIp ip false) ot obid

/-- `AddressRange::free_addr_by_ip6`. -/
def freeAddrByIp6 (ar : AddressRange) (env : ArEnv) (ot : ObjectType) (obid : ℤ) (ip6 : Text) :
    AddressRange × Bool :=
  ar.freeFound env (ar.isValidIp6 env ip6 false) ot obid

/-- The loop of the functions that free several addresses: for each entry of the map that is
visited, the owner is taken out.  The result has the number of addresses freed. -/
def freeEntries (ok : ℕ → Bool) (owner : ℤ) :
    List ℕ → Finset (ℕ × ℤ) → Finset (ℕ × ℤ) × ℕ
  | [], m => (m, 0)
  | i :: is, m =>
    if (i, owner) ∈ m ∧ ok i = true then
      let (m', freed) := freeEntries ok owner is (m.erase (i, owner))
      (m', freed + 1)
    else freeEntries ok owner is m

/-- `AddressRange::free_addr_by_owner`. -/
def freeAddrByOwner (ar : AddressRange) (env : ArEnv) (ot : ObjectType) (obid : ℤ) :
    AddressRange × ℕ :=
  let (m, freed) := freeEntries (ar.freeIndex env) (packOwner ot obid) ar.usedIndexes.sort ar.allocated
  (allocatedToAttr { ar with allocated := m }, freed)

/-- `AddressRange::free_addr_by_range`: it visits the next `rsize` entries of the map, from the
index of the MAC. -/
def freeAddrByRange (ar : AddressRange) (env : ArEnv) (ot : ObjectType) (obid : ℤ) (mac : Text)
    (rsize : ℕ) : AddressRange × ℕ :=
  let m := (macToI env.junk mac).getD ⟨env.junk, env.junk⟩
  let index := (m.lo - ar.mac.lo).toNat
  if ar.shared then (ar, 0)
  else if ar.mac.lo ≤ m.lo ∧ index < ar.size then
    if index ∈ ar.usedIndexes then
      let visited := (ar.usedIndexes.sort.filter (index ≤ ·)).take rsize
      let (m, freed) := freeEntries (ar.freeIndex env) (packOwner ot obid) visited ar.allocated
      (allocatedToAttr { ar with allocated := m }, freed)
    else (ar, 0)
  else (ar, 0)

/-! ### Reservations -/

/-- The attributes of the range of a reservation. -/
def reservedAttr (ar : AddressRange) (env : ArEnv) (index rsize : ℕ) : VectorAttribute :=
  let new := ar.setMac index ar.attr
  let new := ar.setAddresses env index false new
  (new.replaceNat .size rsize).remove .ipamMad

/-- The range `rar` of a reservation: `from_vattr`, whose result is not looked at, and the
identifier of the parent. -/
def reservedRange (ar : AddressRange) (env : ArEnv) (rar : AddressRange) (index rsize : ℕ) :
    AddressRange :=
  let rar := (rar.fromAttr env (ar.reservedAttr env index rsize)).1
  { rar with attr := rar.attr.replaceNat .parentNetworkArId ar.id }

/-- `AddressRange::reserve_addr`: the range of the reservation, or `none` for the error. -/
def reserveAddr (ar : AddressRange) (env : ArEnv) (vid : ℤ) (rsize : ℕ) (rar : AddressRange) :
    AddressRange × Option AddressRange :=
  if ar.shared ∨ ar.freeAddrs < rsize then (ar, none)
  else
    match ar.getAddr env rsize with
    | (ar, none) => (ar, none)
    | (ar, some first) =>
      let ar := ar.setAllocated (packOwner .net vid)
        ((List.range rsize).map (fun j => (first + j) % 2 ^ 32))
      (ar, some (ar.reservedRange env rar first rsize))

/-- `AddressRange::reserve_addr_by_index`: the loops end where `sindex + rsize`, on 32 bits, is
reached. -/
def reserveAddrByIndex (ar : AddressRange) (env : ArEnv) (vid : ℤ) (rsize : ℕ)
    (found : Option ℕ) (rar : AddressRange) : AddressRange × Option AddressRange :=
  match found with
  | none => (ar, none)
  | some sindex =>
    let indexes := List.range' sindex ((sindex + rsize) % 2 ^ 32 - sindex)
    if indexes.any (fun j => j ∈ ar.usedIndexes) then (ar, none)
    else if ar.allocateIndex env then
      let ar := ar.setAllocated (packOwner .net vid) indexes
      (ar, some (ar.reservedRange env rar sindex rsize))
    else (ar, none)

/-- `AddressRange::reserve_addr_by_mac`. -/
def reserveAddrByMac (ar : AddressRange) (env : ArEnv) (vid : ℤ) (rsize : ℕ) (mac : Text)
    (rar : AddressRange) : AddressRange × Option AddressRange :=
  ar.reserveAddrByIndex env vid rsize (if ar.shared then none else ar.isValidMac env mac false) rar

/-- `AddressRange::reserve_addr_by_ip`. -/
def reserveAddrByIp (ar : AddressRange) (env : ArEnv) (vid : ℤ) (rsize : ℕ) (ip : Text)
    (rar : AddressRange) : AddressRange × Option AddressRange :=
  ar.reserveAddrByIndex env vid rsize (if ar.shared then none else ar.isValidIp ip false) rar

/-- `AddressRange::reserve_addr_by_ip6`. -/
def reserveAddrByIp6 (ar : AddressRange) (env : ArEnv) (vid : ℤ) (rsize : ℕ) (ip6 : Text)
    (rar : AddressRange) : AddressRange × Option AddressRange :=
  ar.reserveAddrByIndex env vid rsize (if ar.shared then none else ar.isValidIp6 env ip6 false) rar

/-! ### Update -/

/-- The attributes of an update before the prefixes and the size are looked at: those that cannot
be changed are copied. -/
def updateAttr (ar : AddressRange) (vup : VectorAttribute) : VectorAttribute :=
  let vup := vup.replace .type (ar.attr .type)
  let vup := vup.replace .shared (ar.attr .shared)
  let vup := vup.replace .mac (ar.attr .mac)
  let vup := if ar.attr .ipamMad ≠ [] ∧ ar.shared = false then
    vup.replace .ipamMad (ar.attr .ipamMad) else vup
  let vup := vup.replace .ip (if ar.type.isIpv4 then ar.attr .ip else [])
  let vup := vup.replace .ip6 (if ar.type.isIpv6Static then ar.attr .ip6 else [])
  let vup := vup.replace .arId (ar.attr .arId)
  let vup := vup.replace .allocated (ar.attr .allocated)
  let vup := vup.replace .parentNetworkArId
    (if ar.attr.intValue .parentNetworkArId = none then [] else ar.attr .parentNetworkArId)
  let vup := [AttrName.usedLeases, .leases, .macEnd, .ipEnd, .ip6End, .ip6Ula, .ip6UlaEnd,
    .ip6Global, .ip6GlobalEnd].foldl VectorAttribute.remove vup
  if ar.type.isIpv6Static then
    if vup.intValue .prefixLength = none then
      vup.replace .prefixLength (ar.attr .prefixLength) else vup
  else vup.remove .prefixLength

/-- The check of a new size: no lease may be left outside. -/
def newSize (ar : AddressRange) (vup : VectorAttribute) : Except String ℕ :=
  if vup .size = [] then .ok ar.size
  else
    match vup.unsignedValue .size 64 with
    | none => .error "Unable to read the SIZE attribute, it must be number >= 0"
    | some size =>
      if ar.attr.intValue .parentNetworkArId ≠ none ∧ size ≠ ar.size then
        .error "The SIZE of a reservation cannot be changed."
      -- `upper_bound(new_size - 1)` has a 32-bit argument
      else if ar.usedIndexes.filter (fun i => size = 0 ∨ (size - 1) % 2 ^ 32 < i) ≠ ∅ then
        .error ("New SIZE cannot be applied. There are used leases" ++
          " that would fall outside the range.")
      else .ok size

/-- The end of `AddressRange::update_attributes`. -/
def updateSize (ar : AddressRange) (vup : VectorAttribute) : AddressRange × Option String :=
  match ar.newSize vup with
  | .error e => (ar, some e)
  | .ok size =>
    let portStart := vup.unsignedValue .portStart 32
    let portSize := vup.unsignedValue .portSize 32
    let vup := vup.replaceNat .size size
    let vup := if portStart = none then vup.remove .portStart else vup
    let vup := if portSize = none then vup.remove .portSize else vup
    ({ ar with
      attr := vup
      size := size
      portStart := portStart.getD 0
      portSize := portSize.getD 0 }, none)

/-- `AddressRange::update_attributes`, after the restricted attributes of the update have been
replaced. -/
def updateAttributes (ar : AddressRange) (env : ArEnv) (vup : VectorAttribute) :
    AddressRange × Option String :=
  let vup := ar.updateAttr vup
  if ar.type.isIpv6 then
    match env.inet.prefix6ToI (vup .globalPrefix) with
    | none => (ar, some "Wrong format for IP6 global address prefix")
    | some global6 =>
      let ar := { ar with global6 := global6 }
      match env.inet.prefix6ToI (vup .ulaPrefix) with
      | none => (ar, some "Wrong format for IP6 unique local address prefix")
      | some ula6 => { ar with ula6 := ula6 }.updateSize vup
  else ar.updateSize ((vup.remove .globalPrefix).remove .ulaPrefix)

end AddressRange
